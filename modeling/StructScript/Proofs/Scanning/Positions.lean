import Mathlib.Data.List.DropRight
import StructScript.Proofs.Scanning.Exactness

/-!
# Positions are counted from the beginning

The scanner carries a position along the text, from character to character, over gaps and lexemes
alike. Every position that it reports is the one counted anew from the beginning
(`Position.counted`): the bytes before the place, the newlines among the characters there, and the
characters behind the last newline.

Main result: `Token.scan_positions`.
-/

namespace StructScript

namespace Position

/-- The place behind a text with which the file begins. The offset is the number of bytes of the
text; the line is one more than its newlines, and the column one more than the characters behind the
last newline, both in the lowest 32 bits. -/
def counted (file before : String) : Position where
  file := file
  offset := before.utf8ByteSize
  line := ↑(1 + before.toList.count '\n')
  col := ↑(1 + (before.toList.rtakeWhile (· ≠ '\n')).length)

/-- The position is that of a place between two characters of the text, or at one of its ends. Its
offset is the number of bytes before the place, its line is one more than the newlines there, and
its column is one more than the characters behind the last of them. -/
def IsPlaceIn (p : Position) (source file : String) : Prop :=
  ∃ before rest, source = before ++ rest ∧ p.file = file ∧ p.offset = before.utf8ByteSize ∧
    (p.line : Nat) = 1 + before.toList.count '\n' ∧
    (p.col : Nat) = 1 + (before.toList.rtakeWhile (· ≠ '\n')).length

/-- A character further. -/
theorem next_counted (file before : String) (c : Char) :
    (counted file before).next c = counted file (before.push c) := by
  have hsucc (n : Nat) : UInt32.ofNat (1 + (n + 1)) = UInt32.ofNat (1 + n) + 1 :=
    UInt32.ofNat_add (1 + n) 1
  unfold next
  split
  · rename_i hc
    subst hc
    simp only [counted, String.utf8ByteSize_push, String.toList_push, List.count_append,
      List.count_singleton_self, hsucc]
    rw [List.rtakeWhile_concat_neg _ _ _ (by simp)]
    rfl
  · rename_i hc
    simp only [counted, String.utf8ByteSize_push, String.toList_push, List.count_append]
    rw [List.rtakeWhile_concat_pos _ _ _ (by simpa using hc), List.count_singleton,
      List.length_append, List.length_singleton, hsucc]
    simp [hc]

/-- The position that is carried along a text is the one counted from its beginning. -/
theorem after_start (file : String) (cs : List Char) :
    (start file).after cs = counted file (String.ofList cs) := by
  induction cs using List.reverseRecOn with
  | nil => rfl
  | append_singleton cs c ih =>
      calc (start file).after (cs ++ [c])
          = ((start file).after cs).next c := after_append _ _ _
        _ = (counted file (String.ofList cs)).next c := by rw [ih]
        _ = counted file ((String.ofList cs).push c) := next_counted _ _ _
        _ = counted file (String.ofList (cs ++ [c])) := by
            rw [← String.append_singleton, String.singleton_eq_ofList, String.ofList_append]

/-- Where the characters of a text and one more can be counted with 32 bits, lines and columns are
exact. -/
theorem isPlaceIn_of_append {source : String} (hlength : source.length < UInt32.size - 1)
    {cs rest : List Char} (h : cs ++ rest = source.toList) (file : String) :
    ((start file).after cs).IsPlaceIn source file := by
  have hcs : cs.length + 1 < UInt32.size := by
    have hsource : cs.length + rest.length = source.length := by
      rw [← List.length_append, h, String.length_toList]
    omega
  have hline : cs.count '\n' ≤ cs.length := List.count_le_length
  have hcol : (cs.rtakeWhile (· ≠ '\n')).length ≤ cs.length :=
    (List.rtakeWhile_suffix _ _).length_le
  refine ⟨String.ofList cs, String.ofList rest, ?_, ?_⟩
  · rw [← String.ofList_append, h, String.ofList_toList]
  · rw [after_start, String.toList_ofList]
    refine ⟨rfl, rfl, ?_, ?_⟩
    · rw [counted, String.toList_ofList]
      exact UInt32.toNat_ofNat_of_lt' (show 1 + cs.count '\n' < UInt32.size by omega)
    · rw [counted, String.toList_ofList]
      exact UInt32.toNat_ofNat_of_lt'
        (show 1 + (cs.rtakeWhile (· ≠ '\n')).length < UInt32.size by omega)

end Position

/-- Every token of some pieces stands behind a part of their text. -/
theorem Piece.exists_position_eq_after {pieces : List Piece} {p : Position} {t : Token}
    (ht : t ∈ tokens p pieces) :
    ∃ before rest, join pieces = before ++ rest ∧ t.position = p.after before := by
  induction pieces generalizing p with
  | nil => cases ht
  | cons piece pieces ih =>
      have hbehind (ht : t ∈ tokens (p.after piece.text) pieces) :
          ∃ before rest, join (piece :: pieces) = before ++ rest ∧
            t.position = p.after before := by
        obtain ⟨before, rest, hjoin, hposition⟩ := ih ht
        refine ⟨piece.text ++ before, rest, ?_, ?_⟩
        · rw [join_cons, hjoin, List.append_assoc]
        · rw [hposition, Position.after_append]
      cases piece with
      | gap c => exact hbehind ht
      | lexeme kind text =>
          rcases List.mem_cons.mp ht with rfl | ht
          · exact ⟨[], _, rfl, rfl⟩
          · exact hbehind ht

namespace Token

/-! ### Offsets ascend -/

/-- Offsets never go back. -/
theorem offset_le_after (p : Position) (cs : List Char) : p.offset ≤ (p.after cs).offset := by
  rw [offset_after]
  exact Nat.le_add_right _ _

/-- Behind a character the offset is greater. -/
theorem offset_lt_after (p : Position) {cs : List Char} (h : cs ≠ []) :
    p.offset < (p.after cs).offset := by
  obtain ⟨c, rest, rfl⟩ := List.exists_cons_of_ne_nil h
  have hnext : p.offset < (p.next c).offset := by
    rw [offset_next]
    exact Nat.lt_add_of_pos_right c.utf8Size_pos
  exact Nat.lt_of_lt_of_le hnext (offset_le_after (p.next c) rest)

/-- The tokens of a cut ascend, from the place where the text begins to the one behind it. -/
theorem pairwise_offset_of_cut {cs rest : List Char} {pieces : List Piece} (h : Cut cs pieces rest)
    (p : Position) :
    (Piece.tokens p pieces).Pairwise (fun t u => t.position.offset < u.position.offset) ∧
      ∀ t ∈ Piece.tokens p pieces, p.offset ≤ t.position.offset ∧
        t.position.offset < (p.after (Piece.join pieces)).offset := by
  induction h generalizing p with
  | nil => exact ⟨.nil, nofun⟩
  | @gap c _ _ pieces _ _ ih =>
      obtain ⟨hascending, hbounds⟩ := ih (p.next c)
      refine ⟨hascending, fun t ht => ?_⟩
      obtain ⟨hlow, hhigh⟩ := hbounds t ht
      exact ⟨Nat.le_trans (offset_le_after p [c]) hlow, hhigh⟩
  | @lexeme kind text _ _ pieces hlexeme _ ih =>
      obtain ⟨hascending, hbounds⟩ := ih (p.after text)
      have htext := offset_lt_after p hlexeme.ne_nil
      have hrest := offset_le_after (p.after text) (Piece.join pieces)
      rw [Piece.join_cons, Piece.text, Position.after_append, Piece.tokens]
      constructor
      · refine List.pairwise_cons.mpr ⟨fun t ht => ?_, hascending⟩
        exact Nat.lt_of_lt_of_le htext (hbounds t ht).1
      · intro t ht
        rcases List.mem_cons.mp ht with rfl | ht
        · exact ⟨Nat.le_refl _, Nat.lt_of_lt_of_le htext hrest⟩
        · obtain ⟨hlow, hhigh⟩ := hbounds t ht
          exact ⟨Nat.le_trans (Nat.le_of_lt htext) hlow, hhigh⟩

/-- The tokens of a text ascend. -/
theorem pairwise_offset_of_scan {source file : String} {tokens : List Token}
    (h : scan source file = .ok tokens) :
    tokens.Pairwise fun t u => t.position.offset < u.position.offset := by
  obtain ⟨pieces, hcut, rfl⟩ := exists_cut_of_scan h
  obtain ⟨hascending, hbounds⟩ := pairwise_offset_of_cut hcut (Position.start file)
  have hjoin := hcut.join_append
  rw [List.append_nil] at hjoin
  refine List.pairwise_append.mpr ⟨hascending, List.pairwise_singleton _ _, ?_⟩
  intro t ht eof heof
  rw [List.mem_singleton.mp heof, ← hjoin]
  exact (hbounds t ht).2

/-! ### What is reported -/

/-- The error of a text that is not too long is at a place in it. -/
theorem isPlaceIn_of_scan_error {source file : String} (hlength : source.length < UInt32.size - 1)
    {e : ScanError} (h : scan source file = .error e) : e.position.IsPlaceIn source file := by
  obtain ⟨pieces, rest, hcut, rfl | ⟨hne, hstuck⟩⟩ := Cut.exists_longest source.toList
  · rw [scan_of_cut hcut] at h
    cases h
  · obtain ⟨c, rest, rfl⟩ := List.exists_cons_of_ne_nil hne
    rw [scan_of_cut_stuck hcut hstuck] at h
    cases h
    exact Position.isPlaceIn_of_append hlength hcut.join_append file

/-- **Positions are exact.** Whether a text of fewer than `2 ^ 32 - 1` characters is scanned or not,
the position of every token, and that of the error, is a place in the text as it is counted from the
beginning. The offsets of the tokens ascend, and the last token, the only one of its kind, ends the
text behind its last byte. -/
theorem scan_positions {source : String} (hlength : source.length < UInt32.size - 1)
    (file : String) :
    (∀ tokens, scan source file = .ok tokens →
      (∀ t ∈ tokens, t.position.IsPlaceIn source file) ∧
      tokens.Pairwise (fun t u => t.position.offset < u.position.offset) ∧
      ∃ before eof, tokens = before ++ [eof] ∧ (∀ t ∈ before, t.kind ≠ .eof) ∧
        eof.kind = .eof ∧ eof.position.offset = source.utf8ByteSize) ∧
    ∀ e, scan source file = .error e → e.position.IsPlaceIn source file := by
  refine ⟨fun tokens h => ?_, fun e => isPlaceIn_of_scan_error hlength⟩
  have hascending := pairwise_offset_of_scan h
  obtain ⟨pieces, hcut, rfl⟩ := exists_cut_of_scan h
  have hjoin := hcut.join_append
  rw [List.append_nil] at hjoin
  refine ⟨fun t ht => ?_, hascending, _, _, rfl, hcut.kind_ne_eof _, rfl, ?_⟩
  · rcases List.mem_append.mp ht with ht | ht
    · obtain ⟨before, rest, hbefore, hposition⟩ := Piece.exists_position_eq_after ht
      rw [hposition]
      exact Position.isPlaceIn_of_append hlength (hbefore.symm.trans hjoin) file
    · rw [List.mem_singleton.mp ht]
      exact Position.isPlaceIn_of_append hlength (List.append_nil _) file
  · rw [offset_after, String.ofList_toList]
    exact Nat.zero_add _

/-- A string over two lines, with a character of two bytes, and a comment behind it. -/
theorem scan_positions_lines :
    ∃ tokens, scan "\"é\n\" + // é\n x" "a" = .ok tokens ∧
      tokens.map (·.position) = [⟨"a", 0, 1, 1⟩, ⟨"a", 6, 2, 3⟩, ⟨"a", 8, 2, 5⟩, ⟨"a", 15, 3, 2⟩,
        ⟨"a", 16, 3, 3⟩] ∧
      (∀ t ∈ tokens, t.position.IsPlaceIn "\"é\n\" + // é\n x" "a") ∧
      tokens.Pairwise (fun t u => t.position.offset < u.position.offset) := by
  obtain ⟨tokens, h, hpositions⟩ : ∃ tokens, scan "\"é\n\" + // é\n x" "a" = .ok tokens ∧
      tokens.map (·.position) = [⟨"a", 0, 1, 1⟩, ⟨"a", 6, 2, 3⟩, ⟨"a", 8, 2, 5⟩, ⟨"a", 15, 3, 2⟩,
        ⟨"a", 16, 3, 3⟩] := ⟨_, rfl, by decide +kernel⟩
  obtain ⟨hplaces, hascending, -⟩ := (scan_positions (by decide) "a").1 tokens h
  exact ⟨tokens, h, hpositions, hplaces, hascending⟩

/-! ### The last line that can be counted -/

/-- Newlines are gaps. -/
theorem cut_newlines (n : Nat) :
    Cut (List.replicate n '\n') (List.replicate n (.gap '\n')) [] := by
  induction n with
  | zero => exact .nil _
  | succ n ih => exact .gap rfl ih

/-- Of a text of nothing but newlines, the end is all that there is to scan. -/
theorem scan_newlines (n : Nat) (file : String) :
    scan (String.ofList (List.replicate n '\n')) file =
      .ok [⟨.eof, "", Position.counted file (String.ofList (List.replicate n '\n'))⟩] := by
  have htokens (p : Position) : Piece.tokens p (List.replicate n (.gap '\n')) = [] := by
    induction n generalizing p with
    | zero => rfl
    | succ n ih => exact ih _
  have hcut : Cut (String.ofList (List.replicate n '\n')).toList
      (List.replicate n (.gap '\n')) [] := by
    rw [String.toList_ofList]
    exact cut_newlines n
  rw [scan_of_cut hcut, htokens, String.toList_ofList, Position.after_start]
  rfl

/-- The end of `2 ^ 32 - 1` newlines, which is on line `2 ^ 32`, is said to be on line zero: with a
greater bound `scan_positions` would not hold. -/
theorem scan_newlines_beyond_lines :
    let source := String.ofList (List.replicate (UInt32.size - 1) '\n')
    source.length < UInt32.size ∧ 1 + source.toList.count '\n' = UInt32.size ∧
      ∃ eof, scan source "" = .ok [eof] ∧ eof.position.line = 0 ∧
        ¬ eof.position.IsPlaceIn source "" := by
  intro source
  have hlength : source.length = UInt32.size - 1 := by
    rw [String.length_ofList, List.length_replicate]
  have hcount : 1 + source.toList.count '\n' = UInt32.size := by
    rw [String.toList_ofList, List.count_replicate_self]
    rfl
  have hline : (Position.counted "" source).line = 0 := by
    rw [Position.counted, hcount]
    rfl
  refine ⟨hlength ▸ by decide, hcount, _, scan_newlines _ "", hline, ?_⟩
  rintro ⟨before, rest, -, -, -, hplace, -⟩
  rw [hline] at hplace
  change 0 = 1 + _ at hplace
  omega

end Token

end StructScript
