import StructScript.Token.Scan
import StructScript.Proofs.Scanning.Lexeme

/-!
# The scanner is exact

A source text is cut, from left to right, into gaps and lexemes, each lexeme the longest declared text
where it begins (`Cut`). The cut is a relation on texts and rules that mentions no scanner. The
scanner returns the tokens of a cut that leaves nothing, and it fails where a cut cannot go on
(`Token.scan_exact`).

Every text has a cut that goes as far as it can (`Cut.exists_longest`), and on a text that is cut the
scanner goes from piece to piece (`Token.scanFrom_of_cut`). The rest is the two ways in which the
longest cut can end.
-/

namespace StructScript

/-- A piece of a source text: a character between two tokens, or the text of a token. -/
inductive Piece where
  | gap (c : Char)
  | lexeme (kind : TokenKind) (text : List Char)

namespace Piece

/-- The text of a piece. -/
def text : Piece → List Char
  | gap c => [c]
  | lexeme _ text => text

/-- The text that some pieces make up. -/
def join (pieces : List Piece) : List Char := pieces.flatMap text

/-- The tokens of some pieces, the first of which stands at the position. -/
def tokens : Position → List Piece → List Token
  | _, [] => []
  | p, gap c :: rest => tokens (p.next c) rest
  | p, lexeme kind text :: rest => ⟨kind, String.ofList text, p⟩ :: tokens (p.after text) rest

/-- No piece has no text. -/
@[simp] theorem join_nil : join [] = [] := rfl

/-- The text of some pieces begins with that of the first. -/
@[simp] theorem join_cons (piece : Piece) (rest : List Piece) :
    join (piece :: rest) = piece.text ++ join rest := List.flatMap_cons

/-- The text of pieces in two parts is that of the parts. -/
theorem join_append (pieces rest : List Piece) :
    join (pieces ++ rest) = join pieces ++ join rest := List.flatMap_append

/-- The tokens of pieces behind other pieces stand behind their text. -/
theorem tokens_append (p : Position) (pieces rest : List Piece) :
    tokens p (pieces ++ rest) = tokens p pieces ++ tokens (p.after (join pieces)) rest := by
  induction pieces generalizing p with
  | nil => rfl
  | cons piece pieces ih =>
      cases piece with
      | gap c =>
          simp only [List.cons_append, tokens, ih, join_cons, Position.after_append]
          rfl
      | lexeme kind text =>
          simp only [List.cons_append, tokens, ih, join_cons, Position.after_append]
          rfl

end Piece

/-- The characters are the text of the pieces and a rest. Each lexeme is the one at the beginning of
the characters that stand there. -/
inductive Cut : List Char → List Piece → List Char → Prop where
  | nil (cs : List Char) : Cut cs [] cs
  | gap {c : Char} {cs rest : List Char} {pieces : List Piece} (hc : isGap c = true)
      (hcut : Cut cs pieces rest) : Cut (c :: cs) (.gap c :: pieces) rest
  | lexeme {kind : TokenKind} {text cs rest : List Char} {pieces : List Piece}
      (hlexeme : Lexeme kind text (text ++ cs)) (hcut : Cut cs pieces rest) :
      Cut (text ++ cs) (.lexeme kind text :: pieces) rest

/-- No token can be taken here: the characters begin with no gap and with no lexeme. -/
def Stuck (cs : List Char) : Prop :=
  (∀ c rest, cs = c :: rest → isGap c = false) ∧ ∀ kind text, ¬ Lexeme kind text cs

/-- A closed string stands at the beginning of the characters. -/
def BeginsWithString (cs : List Char) : Prop :=
  ∃ text, Pattern.quoted.Matches text ∧ text <+: cs

/-! ### Cuts -/

namespace Cut

/-- The text of the pieces and the rest are the whole. -/
theorem join_append {cs rest : List Char} {pieces : List Piece} (h : Cut cs pieces rest) :
    Piece.join pieces ++ rest = cs := by
  induction h with
  | nil => rfl
  | gap hc hcut ih => simp [Piece.text, ih]
  | lexeme hlexeme hcut ih => simp [Piece.text, ih]

/-- The tokens of a cut are lexemes. -/
theorem exists_lexeme {cs rest : List Char} {pieces : List Piece} (h : Cut cs pieces rest) :
    ∀ (p : Position), ∀ t ∈ Piece.tokens p pieces,
      ∃ behind, Lexeme t.kind t.lexeme.toList (t.lexeme.toList ++ behind) := by
  induction h with
  | nil => exact nofun
  | gap hc hcut ih => exact fun p => ih (p.next _)
  | @lexeme kind text cs rest pieces hlexeme hcut ih =>
      intro p
      refine List.forall_mem_cons.mpr ⟨⟨cs, ?_⟩, ih (p.after text)⟩
      rwa [String.toList_ofList]

/-- None of the pieces of a cut is an end of the text. -/
theorem kind_ne_eof {cs rest : List Char} {pieces : List Piece} (h : Cut cs pieces rest)
    (p : Position) : ∀ t ∈ Piece.tokens p pieces, t.kind ≠ .eof := by
  intro t ht
  obtain ⟨behind, hlexeme⟩ := h.exists_lexeme p t ht
  exact hlexeme.kind_ne_eof

/-- Every text has a cut after which nothing is left or no token can be taken. -/
theorem exists_longest (cs : List Char) :
    ∃ pieces rest, Cut cs pieces rest ∧ (rest = [] ∨ rest ≠ [] ∧ Stuck rest) := by
  induction hlength : cs.length using Nat.strongRecOn generalizing cs with
  | ind n ih =>
      cases cs with
      | nil => exact ⟨[], [], .nil [], .inl rfl⟩
      | cons c behind =>
          by_cases hgap : isGap c = true
          · obtain ⟨pieces, rest, hcut, hrest⟩ :=
              ih behind.length (by simp [← hlength]) behind rfl
            exact ⟨.gap c :: pieces, rest, .gap hgap hcut, hrest⟩
          · by_cases htaken : ∃ kind text, Lexeme kind text (c :: behind)
            · obtain ⟨kind, text, hlexeme⟩ := htaken
              obtain ⟨cs', hcs'⟩ := hlexeme.isPrefix
              have hpos := List.length_pos_iff.mpr hlexeme.ne_nil
              have hlt : cs'.length < n := by
                rw [← hlength, ← hcs', List.length_append]
                omega
              obtain ⟨pieces, rest, hcut, hrest⟩ := ih cs'.length hlt cs' rfl
              rw [← hcs'] at hlexeme ⊢
              exact ⟨.lexeme kind text :: pieces, rest, .lexeme hlexeme hcut, hrest⟩
            · refine ⟨[], c :: behind, .nil _, .inr ⟨by simp, ?_, ?_⟩⟩
              · rintro _ _ ⟨⟩
                simpa using hgap
              · exact fun kind text hlexeme => htaken ⟨kind, text, hlexeme⟩

end Cut

namespace Token

/-! ### The scanner on a text that is cut -/

/-- The scanner takes piece after piece. -/
theorem scanFrom_of_cut {cs rest : List Char} {pieces : List Piece} (h : Cut cs pieces rest) :
    ∀ {fuel : Nat} (taken : List Token) (p : Position), cs.length ≤ fuel →
      ∃ fuel', rest.length ≤ fuel' ∧ scanFrom fuel taken p cs =
        scanFrom fuel' ((Piece.tokens p pieces).reverse ++ taken) (p.after (Piece.join pieces))
          rest := by
  induction h with
  | nil cs => exact fun _ _ hfuel => ⟨_, hfuel, rfl⟩
  | @gap c cs rest pieces hc hcut ih =>
      intro fuel taken p hfuel
      obtain ⟨fuel, rfl⟩ : ∃ k, fuel = k + 1 := ⟨fuel - 1, by simp at hfuel; omega⟩
      obtain ⟨fuel', hfuel', heq⟩ := ih taken (p.next c) (Nat.le_of_succ_le_succ hfuel)
      refine ⟨fuel', hfuel', ?_⟩
      simp only [scanFrom, hc, if_true, heq, Piece.tokens, Piece.join_cons, Piece.text]
      rfl
  | @lexeme kind text cs rest pieces hlexeme hcut ih =>
      intro fuel taken p hfuel
      obtain ⟨c, text, rfl⟩ := List.exists_cons_of_ne_nil hlexeme.ne_nil
      obtain ⟨fuel, rfl⟩ : ∃ k, fuel = k + 1 := ⟨fuel - 1, by simp at hfuel; omega⟩
      have hlength : cs.length ≤ fuel := by
        simp only [List.length_append, List.length_cons] at hfuel
        omega
      obtain ⟨fuel', hfuel', heq⟩ :=
        ih (⟨kind, String.ofList (c :: text), p⟩ :: taken) (p.after (c :: text)) hlength
      refine ⟨fuel', hfuel', ?_⟩
      -- what follows the lexeme is scanned from behind it
      have hbest := Rule.best?_of_lexeme hlexeme
      rw [List.cons_append] at hbest ⊢
      simp only [scanFrom, hlexeme.isGap_head, hbest]
      rw [← List.cons_append, List.take_left, List.drop_left]
      simp only [Bool.false_eq_true, if_false, heq, Piece.tokens, Piece.join_cons, Piece.text,
        Position.after_append, List.reverse_cons, List.append_assoc, List.singleton_append]

/-- Where nothing is left, the tokens end. -/
theorem scanFrom_nil (fuel : Nat) (taken : List Token) (p : Position) :
    scanFrom fuel taken p [] = .ok (⟨.eof, "", p⟩ :: taken).reverse := by
  unfold scanFrom
  rfl

/-- Where no token can be taken, scanning stops. -/
theorem scanFrom_of_stuck {c : Char} {rest : List Char} (h : Stuck (c :: rest)) (fuel : Nat)
    (taken : List Token) (p : Position) :
    scanFrom fuel taken p (c :: rest) = .error ⟨scanFailure c, p⟩ := by
  have hgap : isGap c = false := h.1 c rest rfl
  have hbest : Rule.best? (c :: rest) Rule.all = none := by
    cases hbest : Rule.best? (c :: rest) Rule.all with
    | none => rfl
    | some taken =>
        obtain ⟨text, _, _, _, hlexeme⟩ := Rule.lexeme_of_best? hbest
        exact absurd hlexeme (h.2 taken.1 text)
  cases fuel with
  | zero => rfl
  | succ fuel => simp only [scanFrom, hgap, hbest, Bool.false_eq_true, if_false]

/-- A source text that is cut whole has the tokens of the cut. -/
theorem scan_of_cut {source : String} {pieces : List Piece} (h : Cut source.toList pieces [])
    (file : String) :
    scan source file = .ok (Piece.tokens (Position.start file) pieces ++
      [⟨.eof, "", (Position.start file).after source.toList⟩]) := by
  have hjoin := h.join_append
  rw [List.append_nil] at hjoin
  obtain ⟨fuel, -, heq⟩ := scanFrom_of_cut h [] (Position.start file) (Nat.le_refl _)
  rw [scan, heq, scanFrom_nil, hjoin]
  simp

/-- A source text is not scanned if it is cut up to a place where no token can be taken. -/
theorem scan_of_cut_stuck {source : String} {pieces : List Piece} {c : Char} {rest : List Char}
    (h : Cut source.toList pieces (c :: rest)) (hstuck : Stuck (c :: rest)) (file : String) :
    scan source file =
      .error ⟨scanFailure c, (Position.start file).after (Piece.join pieces)⟩ := by
  obtain ⟨fuel, -, heq⟩ := scanFrom_of_cut h [] (Position.start file) (Nat.le_refl _)
  rw [scan, heq, scanFrom_of_stuck hstuck]

/-! ### Where scanning stops -/

/-- No token can be taken where a quote has no closing one. -/
theorem not_beginsWithString_of_stuck {cs : List Char} (h : Stuck cs) : ¬ BeginsWithString cs := by
  rintro ⟨text, hmatch, rest, rfl⟩
  obtain ⟨n, hn, -⟩ := Pattern.exists_longest_of_matches hmatch rest
  have hrule : (⟨.string, .quoted⟩ : Rule) ∈ Rule.all := by decide
  cases hbest : Rule.best? (text ++ rest) Rule.all with
  | none =>
      have hnone := Rule.best?_eq_none_iff.mp hbest _ hrule
      rw [hn] at hnone
      cases hnone
  | some taken =>
      obtain ⟨text', _, _, _, hlexeme⟩ := Rule.lexeme_of_best? hbest
      exact h.2 taken.1 text' hlexeme

/-- A character moves the offset by its bytes. -/
theorem offset_next (p : Position) (c : Char) : (p.next c).offset = p.offset + c.utf8Size := by
  unfold Position.next
  split <;> rfl

/-- The offset behind a text is the number of its bytes. -/
theorem offset_after (p : Position) (cs : List Char) :
    (p.after cs).offset = p.offset + (String.ofList cs).utf8ByteSize := by
  induction cs generalizing p with
  | nil => simp
  | cons c cs ih =>
      have hsize : (String.ofList (c :: cs)).utf8ByteSize =
          c.utf8Size + (String.ofList cs).utf8ByteSize := by
        rw [String.ofList_cons, String.utf8ByteSize_append, String.utf8ByteSize_singleton]
      rw [Position.after_cons, ih, offset_next, hsize, Nat.add_assoc]

/-- Tokens are returned for a source text that is cut whole. -/
theorem exists_cut_of_scan {source file : String} {tokens : List Token}
    (h : scan source file = .ok tokens) :
    ∃ pieces, Cut source.toList pieces [] ∧
      tokens = Piece.tokens (Position.start file) pieces ++
        [⟨.eof, "", (Position.start file).after source.toList⟩] := by
  obtain ⟨pieces, rest, hcut, rfl | ⟨hne, hstuck⟩⟩ := Cut.exists_longest source.toList
  · rw [scan_of_cut hcut] at h
    exact ⟨pieces, hcut, (Except.ok.inj h).symm⟩
  · obtain ⟨c, rest, rfl⟩ := List.exists_cons_of_ne_nil hne
    rw [scan_of_cut_stuck hcut hstuck] at h
    cases h

/-- The scanner returns tokens exactly if the source text is cut into gaps and lexemes, each the
longest declared text where it begins; they are the lexemes in their order, and one token for the
end of the text. It fails exactly if a cut comes to a place where no token can be taken: at a quote,
for want of the closing one, and else at a character that begins nothing. The pieces make up the
source text, no lexeme stands for its end, and offsets count the bytes before a place. -/
theorem scan_exact (source file : String) :
    (∀ tokens, scan source file = .ok tokens ↔
      ∃ pieces, Cut source.toList pieces [] ∧
        tokens = Piece.tokens (Position.start file) pieces ++
          [⟨.eof, "", (Position.start file).after source.toList⟩]) ∧
    (∀ e, scan source file = .error e ↔
      ∃ pieces c rest, Cut source.toList pieces (c :: rest) ∧ Stuck (c :: rest) ∧
        e.position = (Position.start file).after (Piece.join pieces) ∧
        (c = '"' ∧ ¬ BeginsWithString (c :: rest) → e.cause = .unterminatedString) ∧
        (¬ (c = '"' ∧ ¬ BeginsWithString (c :: rest)) → e.cause = .unexpectedChar c)) ∧
    (∀ pieces rest, Cut source.toList pieces rest →
      Piece.join pieces ++ rest = source.toList ∧
      ∀ t ∈ Piece.tokens (Position.start file) pieces, t.kind ≠ .eof) ∧
    ∀ text, ((Position.start file).after text).offset = (String.ofList text).utf8ByteSize := by
  refine ⟨fun tokens => ⟨exists_cut_of_scan, ?_⟩, fun e => ⟨fun h => ?_, ?_⟩, ?_, ?_⟩
  · rintro ⟨pieces, hcut, rfl⟩
    exact scan_of_cut hcut file
  · -- the longest cut does not come to the end, so scanning has failed where it stops
    obtain ⟨pieces, rest, hcut, rfl | ⟨hne, hstuck⟩⟩ := Cut.exists_longest source.toList
    · rw [scan_of_cut hcut] at h
      cases h
    · obtain ⟨c, rest, rfl⟩ := List.exists_cons_of_ne_nil hne
      rw [scan_of_cut_stuck hcut hstuck] at h
      cases h
      have hopen := not_beginsWithString_of_stuck hstuck
      refine ⟨pieces, c, rest, hcut, hstuck, rfl, ?_, ?_⟩
      · rintro ⟨rfl, -⟩
        rfl
      · intro hc
        have hquote : c ≠ '"' := fun heq => hc ⟨heq, hopen⟩
        exact if_neg hquote
  · rintro ⟨pieces, c, rest, hcut, hstuck, hposition, hclosed, hunexpected⟩
    -- a cut that stops: scanning fails there, with the cause that belongs to the place
    rw [scan_of_cut_stuck hcut hstuck, ← hposition]
    have hopen := not_beginsWithString_of_stuck hstuck
    have hcause : scanFailure c = e.cause := by
      by_cases hc : c = '"'
      · rw [hclosed ⟨hc, hopen⟩]
        exact if_pos hc
      · rw [hunexpected fun h => hc h.1]
        exact if_neg hc
    rw [hcause]
  · intro pieces rest hcut
    exact ⟨hcut.join_append, hcut.kind_ne_eof _⟩
  · intro text
    rw [offset_after]
    exact Nat.zero_add _

/-- A name and a space are cut, and nothing can be taken at the quote behind them. -/
theorem scan_exact_unclosed :
    ∃ pieces c rest, Cut "a \"b".toList pieces (c :: rest) ∧ Stuck (c :: rest) ∧
      (Position.start "").after (Piece.join pieces) = ⟨"", 2, 1, 3⟩ := by
  have hfails : scan "a \"b" "" = .error ⟨.unterminatedString, ⟨"", 2, 1, 3⟩⟩ := by rfl
  obtain ⟨pieces, c, rest, hcut, hstuck, hposition, -⟩ :=
    ((scan_exact "a \"b" "").2.1 _).mp hfails
  exact ⟨pieces, c, rest, hcut, hstuck, hposition.symm⟩

end Token

end StructScript
