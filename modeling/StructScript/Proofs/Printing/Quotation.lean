import StructScript.Proofs.Printing.Spelling
import StructScript.Text.Escape
import StructScript.Value

/-!
# Strings in quotes

A string value is shown in quotes, and what is shown is one string literal
(`Quoted.matches_text`). The value of a literal is read from what stands between its quotes,
character by character from left to right. `Escape.Reads` says how, and it does not say how a
backslash with nothing behind it would be read: a literal has none
(`QuotedBody.exists_reads`).

Read in this way, a character that was written as its code point in braces comes back as those
braces, for no letter `u` is known behind a backslash, and every other character comes back as
itself (`Quoted.reads_encode`). So a string comes back exactly if none of its characters is written
as its code point.

Main result: `Token.scan_shown_string`.
-/

namespace StructScript

/-! ### Reading from left to right -/

/-- A text between quotes, and what it is read as: a character that is no backslash as itself, and a
backslash together with the character behind it, as the character that this letter stands for or,
if it stands for none, as the two characters. -/
inductive Escape.Reads : List Char → List Char → Prop where
  | nil : Reads [] []
  | plain {c : Char} {body value : List Char} (hc : c ≠ '\\') (hbody : Reads body value) :
      Reads (c :: body) (c :: value)
  | known {letter c : Char} {body value : List Char} (hletter : resolve? letter = some c)
      (hbody : Reads body value) : Reads ('\\' :: letter :: body) (c :: value)
  | unknown {letter : Char} {body value : List Char} (hletter : resolve? letter = none)
      (hbody : Reads body value) : Reads ('\\' :: letter :: body) ('\\' :: letter :: value)

namespace Escape.Reads

variable {body value other read : List Char}

/-- What is read is the value that is decoded. -/
theorem decode_eq (h : Reads body value) : decode body = value := by
  induction h with
  | nil => rfl
  | plain hc _ ih =>
      rw [decode, ih]
      exact fun _ _ heq => absurd heq hc
  | known hletter _ ih => simp only [decode, hletter, ih]
  | unknown hletter _ ih => simp only [decode, hletter, ih]

/-- Texts are read one after the other. -/
theorem append (h : Reads body value) (hother : Reads other read) :
    Reads (body ++ other) (value ++ read) := by
  induction h with
  | nil => exact hother
  | plain hc _ ih => exact .plain hc ih
  | known hletter _ ih => exact .known hletter ih
  | unknown hletter _ ih => exact .unknown hletter ih

/-- A text without backslashes is read as itself. -/
theorem of_forall_ne (h : ∀ c ∈ body, c ≠ '\\') : Reads body body := by
  induction body with
  | nil => exact .nil
  | cons c body ih =>
      obtain ⟨hc, hbody⟩ := List.forall_mem_cons.mp h
      exact .plain hc (ih hbody)

/-- Behind what is read, no backslash is the last character. -/
theorem ne_append_backslash (h : Reads body value) (hother : Reads other read) :
    other ≠ body ++ ['\\'] := by
  induction h generalizing other read with
  | nil =>
      rintro rfl
      cases hother with
      | plain hc => exact hc rfl
  | @plain c body _ hc _ ih =>
      rintro rfl
      rw [List.cons_append] at hother
      generalize hrest : body ++ ['\\'] = rest at hother
      cases hother with
      | plain _ hother => exact ih hother hrest.symm
      | known => exact hc rfl
      | unknown => exact hc rfl
  | @known _ _ body _ _ _ ih | @unknown _ body _ _ _ ih =>
      rintro rfl
      rw [List.cons_append, List.cons_append] at hother
      generalize hrest : body ++ ['\\'] = rest at hother
      cases hother with
      | plain hc => exact hc rfl
      | known _ hother => exact ih hother hrest.symm
      | unknown _ hother => exact ih hother hrest.symm

end Escape.Reads

/-- What stands between the quotes of a literal can be read. -/
theorem QuotedBody.exists_reads {body : List Char} (h : QuotedBody body) :
    ∃ value, Escape.Reads body value := by
  induction h with
  | nil => exact ⟨[], .nil⟩
  | @plain c _ _ hbackslash _ ih =>
      obtain ⟨value, hvalue⟩ := ih
      exact ⟨c :: value, .plain hbackslash hvalue⟩
  | @escaped letter _ _ _ ih =>
      obtain ⟨value, hvalue⟩ := ih
      cases hletter : Escape.resolve? letter with
      | some c => exact ⟨c :: value, .known hletter hvalue⟩
      | none => exact ⟨'\\' :: letter :: value, .unknown hletter hvalue⟩

/-- What may stand between quotes may stand there one after the other. -/
theorem QuotedBody.append {body other : List Char} (h : QuotedBody body)
    (hother : QuotedBody other) : QuotedBody (body ++ other) := by
  induction h with
  | nil => exact hother
  | plain hquote hbackslash _ ih => exact .plain hquote hbackslash ih
  | escaped hnewline _ ih => exact .escaped hnewline ih

/-- Characters that are neither quotes nor backslashes may stand between quotes. -/
theorem QuotedBody.of_forall_ne {body : List Char} (h : ∀ c ∈ body, c ≠ '"' ∧ c ≠ '\\') :
    QuotedBody body := by
  induction body with
  | nil => exact .nil
  | cons c body ih =>
      obtain ⟨⟨hquote, hbackslash⟩, hbody⟩ := List.forall_mem_cons.mp h
      exact .plain hquote hbackslash (ih hbody)

/-- Between the quotes of a lexeme stands all but its first and its last character. -/
theorem Escape.body_quoted (body : List Char) : Escape.body ('"' :: (body ++ ['"'])) = body := by
  simp [Escape.body]

namespace Quoted

/-! ### What is written between the quotes -/

/-- The digits of a code point are neither quotes nor backslashes. -/
theorem ne_of_mem_toDigits (n : Nat) : ∀ c ∈ Nat.toDigits 16 n, c ≠ '"' ∧ c ≠ '\\' := by
  have hdigit (d : Nat) : d.digitChar ≠ '"' ∧ d.digitChar ≠ '\\' := by simp
  induction n using Nat.strongRecOn with
  | ind n ih =>
      rw [Nat.toDigits_eq_if (by decide)]
      split
      · exact List.forall_mem_singleton.mpr (hdigit n)
      · refine List.forall_mem_append.mpr ⟨ih (n / 16) (by omega), ?_⟩
        exact List.forall_mem_singleton.mpr (hdigit (n % 16))

/-- Behind the letter of a code point stand neither quotes nor backslashes. -/
theorem exists_codePoint (c : Char) : ∃ digits, codePoint c = '\\' :: 'u' :: digits ∧
    digits ≠ [] ∧ ∀ d ∈ digits, d ≠ '"' ∧ d ≠ '\\' := by
  refine ⟨_, rfl, List.cons_ne_nil _ _, List.forall_mem_cons.mpr ⟨by decide, ?_⟩⟩
  refine List.forall_mem_append.mpr ⟨ne_of_mem_toDigits _, ?_⟩
  exact List.forall_mem_singleton.mpr (by decide)

/-- The letter that stands for a character is read as that character. -/
theorem resolve?_of_letter? {c letter : Char} (h : letter? c = some letter) :
    Escape.resolve? letter = some c ∧ letter ≠ '\n' := by
  unfold letter? at h
  repeat'
    split at h
    · cases h
      subst_vars
      exact ⟨rfl, by decide⟩
  cases h

/-- A character is written with its letter, as its code point, or as itself; as itself only if it is
neither a quote nor a backslash. -/
theorem encodeChar_cases (c : Char) :
    (∃ letter, letter? c = some letter ∧ encodeChar c = ['\\', letter] ∧ hexEscaped c = false) ∨
      (encodeChar c = codePoint c ∧ hexEscaped c = true) ∨
      (encodeChar c = [c] ∧ hexEscaped c = false ∧ c ≠ '"' ∧ c ≠ '\\') := by
  cases hletter : letter? c with
  | some letter =>
      left
      exact ⟨letter, rfl, by simp [encodeChar, hletter], by simp [hexEscaped, hletter]⟩
  | none =>
      right
      have hencode : encodeChar c = if isHidden c then codePoint c else [c] := by
        simp only [encodeChar, hletter]
      have hhex : hexEscaped c = isHidden c := by simp [hexEscaped, hletter]
      rw [hencode, hhex]
      cases isHidden c with
      | true => exact .inl ⟨rfl, rfl⟩
      | false =>
          refine .inr ⟨rfl, rfl, ?_, ?_⟩
          · rintro rfl
            cases hletter
          · rintro rfl
            cases hletter

/-- What a character comes back as, when what is written for it is read. -/
def readBack (c : Char) : List Char := if hexEscaped c then codePoint c else [c]

/-- A character may stand between quotes as it is written there. -/
theorem quotedBody_encodeChar (c : Char) : QuotedBody (encodeChar c) := by
  rcases encodeChar_cases c with ⟨letter, hletter, heq, -⟩ | ⟨heq, -⟩ | ⟨heq, -, hne⟩
  · rw [heq]
    exact .escaped (resolve?_of_letter? hletter).2 .nil
  · obtain ⟨digits, hdigits, -, hne⟩ := exists_codePoint c
    rw [heq, hdigits]
    exact .escaped (by decide) (.of_forall_ne hne)
  · rw [heq]
    exact .plain hne.1 hne.2 .nil

/-- What is written for a character is read as one, or as the characters of a code point that is no
escape. -/
theorem reads_encodeChar (c : Char) : Escape.Reads (encodeChar c) (readBack c) := by
  rcases encodeChar_cases c with ⟨letter, hletter, heq, hhex⟩ | ⟨heq, hhex⟩ | ⟨heq, hhex, hne⟩
  · rw [heq, readBack, hhex]
    exact .known (resolve?_of_letter? hletter).1 .nil
  · obtain ⟨digits, hdigits, -, hne⟩ := exists_codePoint c
    rw [heq, readBack, hhex, if_pos rfl, hdigits]
    exact .unknown rfl (.of_forall_ne fun d hd => (hne d hd).2)
  · rw [heq, readBack, hhex]
    exact .plain hne.2 .nil

/-- What is written for some characters may stand between quotes. -/
theorem quotedBody_encode (cs : List Char) : QuotedBody (encode cs) := by
  induction cs with
  | nil => exact .nil
  | cons c cs ih => exact (quotedBody_encodeChar c).append ih

/-- What is written for some characters is read as what each of them comes back as. -/
theorem reads_encode (cs : List Char) : Escape.Reads (encode cs) (cs.flatMap readBack) := by
  induction cs with
  | nil => exact .nil
  | cons c cs ih => exact (reads_encodeChar c).append ih

/-- A string in quotes is a string literal. -/
theorem matches_text (s : String) : Pattern.quoted.Matches (text s).toList := by
  rw [text, String.toList_ofList]
  exact .quoted (quotedBody_encode s.toList)

/-- The value of a string in quotes. -/
theorem value_text (s : String) :
    Escape.value (text s) = String.ofList (s.toList.flatMap readBack) := by
  rw [Escape.value, text, String.toList_ofList, Escape.body_quoted, (reads_encode _).decode_eq]

/-! ### Which strings come back -/

/-- A character is written as a code point exactly if it is hidden and has no letter. -/
theorem encodeChar_eq_codePoint_iff {c : Char} :
    encodeChar c = codePoint c ↔ hexEscaped c = true := by
  obtain ⟨digits, hdigits, hne, -⟩ := exists_codePoint c
  rcases encodeChar_cases c with ⟨letter, -, heq, hhex⟩ | ⟨heq, hhex⟩ | ⟨heq, hhex, -⟩
  · simp [heq, hhex, hdigits, hne.symm]
  · simp [heq, hhex]
  · simp [heq, hhex, hdigits]

/-- No characters are lost in reading. -/
theorem length_le_flatMap_readBack (cs : List Char) : cs.length ≤ (cs.flatMap readBack).length := by
  induction cs with
  | nil => exact Nat.le_refl 0
  | cons c cs ih =>
      have hpos : 0 < (readBack c).length := by
        rw [readBack]
        split <;> simp [codePoint]
      rw [List.flatMap_cons, List.length_append, List.length_cons]
      omega

/-- Characters come back as themselves only if none of them is written as its code point: those that
are take more room. -/
theorem flatMap_readBack_eq_iff {cs : List Char} :
    cs.flatMap readBack = cs ↔ ∀ c ∈ cs, hexEscaped c = false := by
  induction cs with
  | nil => simp
  | cons c cs ih =>
      rw [List.flatMap_cons, List.forall_mem_cons, ← ih, readBack]
      cases hexEscaped c with
      | false => simp
      | true =>
          refine iff_of_false (fun heq => ?_) (fun h => nomatch h.1)
          have hlength := congrArg List.length heq
          have hle := length_le_flatMap_readBack cs
          simp only [if_true, List.length_append, List.length_cons, codePoint] at hlength
          omega

/-- A string comes back exactly if none of its characters is written as its code point. -/
theorem value_text_eq_iff {s : String} :
    Escape.value (text s) = s ↔ ∀ c ∈ s.toList, hexEscaped c = false := by
  rw [value_text, ← flatMap_readBack_eq_iff, ← String.toList_inj, String.toList_ofList]

end Quoted

namespace Token

/-- Only string literals make string tokens. -/
theorem exists_body_of_string {source file : String} {tokens : List Token}
    (h : scan source file = .ok tokens) {t : Token} (ht : t ∈ tokens) (hkind : t.kind = .string) :
    ∃ body, t.lexeme.toList = '"' :: (body ++ ['"']) ∧ QuotedBody body := by
  have hrules : ∀ rule ∈ Rule.all, rule.kind = .string → rule.pattern = .quoted := by decide
  obtain ⟨pieces, hcut, rfl⟩ := exists_cut_of_scan h
  rcases List.mem_append.mp ht with ht | ht
  · obtain ⟨behind, hlexeme⟩ := hcut.exists_lexeme _ t ht
    obtain ⟨rule, hrule, hrulekind, hmatch, -⟩ := hlexeme.names
    rw [hrules rule hrule (hrulekind.trans hkind)] at hmatch
    generalize t.lexeme.toList = lexeme at hmatch
    cases hmatch with
    | @quoted body hbody => exact ⟨body, rfl, hbody⟩
  · rw [List.mem_singleton.mp ht] at hkind
    cases hkind

/-- **Showing a string and reading a string literal are inverse where they can be.** What is shown
of a string value is split into one string token, with all of it as the lexeme, and the end; the
value of that literal is the string exactly if no character of the string is shown as its code
point. Conversely, each string token of any text is two quotes with a text between them, and its
value is what that text is read as from left to right, without ever coming to a backslash that is
the last character. -/
theorem scan_shown_string (s file : String) :
    scan (Value.str s).text file =
      .ok [⟨.string, (Value.str s).text, Position.start file⟩,
        ⟨.eof, "", (Position.start file).after (Value.str s).text.toList⟩] ∧
    (Escape.value (Value.str s).text = s ↔
      ∀ c ∈ s.toList, Quoted.encodeChar c ≠ Quoted.codePoint c) ∧
    ∀ source tokens, scan source file = .ok tokens → ∀ t ∈ tokens, t.kind = .string →
      ∃ body value, t.lexeme.toList = '"' :: (body ++ ['"']) ∧
        Escape.body t.lexeme.toList = body ∧ Escape.Reads body value ∧
        Escape.value t.lexeme = String.ofList value ∧
        ∀ before read, Escape.Reads before read → body ≠ before ++ ['\\'] := by
  rw [Value.text]
  refine ⟨?_, ?_, fun source tokens h t ht hkind => ?_⟩
  · have hlexeme := Lexeme.of_quoted (Quoted.matches_text s) []
    have hcut := Cut.lexeme hlexeme (.nil [])
    rw [List.append_nil] at hcut
    rw [scan_of_cut hcut, Piece.tokens, Piece.tokens, String.ofList_toList]
    rfl
  · rw [Quoted.value_text_eq_iff]
    refine forall₂_congr fun c _ => ?_
    rw [Ne, Quoted.encodeChar_eq_codePoint_iff, Bool.not_eq_true]
  · obtain ⟨body, hlexeme, hbody⟩ := exists_body_of_string h ht hkind
    obtain ⟨value, hvalue⟩ := hbody.exists_reads
    have hinside : Escape.body t.lexeme.toList = body := by rw [hlexeme, Escape.body_quoted]
    refine ⟨body, value, hlexeme, hinside, hvalue, ?_, fun before read hbefore => ?_⟩
    · rw [Escape.value, hinside, hvalue.decode_eq]
    · exact hbefore.ne_append_backslash hvalue

/-- A literal that ends with a pair of backslashes, behind one that stands for a quote. -/
theorem scan_shown_string_backslashes :
    ∃ tokens t body value, scan "return \"\\\"\\\\\";" "" = .ok tokens ∧ t ∈ tokens ∧
      t.kind = .string ∧ t.lexeme.toList = '"' :: (body ++ ['"']) ∧ Escape.Reads body value ∧
      Escape.value t.lexeme = String.ofList value ∧
      ∀ before read, Escape.Reads before read → body ≠ before ++ ['\\'] := by
  obtain ⟨tokens, h, ht⟩ : ∃ tokens, scan "return \"\\\"\\\\\";" "" = .ok tokens ∧
      (⟨.string, "\"\\\"\\\\\"", ⟨"", 7, 1, 8⟩⟩ : Token) ∈ tokens :=
    ⟨_, rfl, by decide +kernel⟩
  obtain ⟨body, value, hlexeme, -, hreads, hvalue, hend⟩ :=
    (scan_shown_string "" "").2.2 _ tokens h _ ht rfl
  exact ⟨tokens, _, body, value, h, ht, rfl, hlexeme, hreads, hvalue, hend⟩

end Token

end StructScript
