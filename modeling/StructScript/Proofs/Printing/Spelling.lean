import StructScript.Proofs.Grammar.Exactness
import StructScript.Proofs.Layout.Invariance
import StructScript.Proofs.Scanning.Exactness

/-!
# Spelling tokens

What has to stand behind a word, a number, a symbol or a string for the scanner to end it there. A
word or a number ends before every character that goes on neither (`Delimited`); most symbols end
before every character, and so does a closed string. A symbol of arithmetic ends where it begins no
arrow and no comment.

A text *spells* some tokens if it is split into tokens of the same kinds and lexemes
(`Spells`). Texts are built up from behind: `Spelled text ts` says that `text` spells `ts` in front
of every text that ends words, and the rest spells what it spells without `text`.
-/

namespace StructScript

/-- No word and no number goes on here. -/
def Delimited (cs : List Char) : Prop := ∀ c rest, cs = c :: rest → isNameChar c = false ∧ c ≠ '.'

/-- The end of a text ends every word. -/
theorem Delimited.nil : Delimited [] := nofun

/-- A character that belongs to no name, and is no point, ends every word and every number. -/
theorem Delimited.cons {c : Char} (hc : isNameChar c = false) (hpoint : c ≠ '.')
    (cs : List Char) : Delimited (c :: cs) := by
  intro d rest h
  obtain ⟨rfl, -⟩ := List.cons.inj h
  exact ⟨hc, hpoint⟩

/-- A word, by computation. -/
theorem Pattern.name_of_all {c : Char} {text : List Char} (hc : isNameStart c = true)
    (htext : text.all isNameChar = true) : name.Matches (c :: text) :=
  .name hc (List.all_eq_true.mp htext)

namespace Rule

/-! ### What begins like a word or a number -/

/-- A rule whose spelling begins like a name is that of a keyword. -/
theorem mem_keywords_of_spelling : ∀ rule ∈ Rule.all,
    rule.pattern.spelling.head?.map isNameStart = some true →
      rule.pattern.spelling ∈ TokenKind.keywords.map (·.1.toList) := by
  decide

/-- Keywords are made of the characters of names. -/
theorem isNameChar_of_keyword :
    ∀ entry ∈ TokenKind.keywords, ∀ c ∈ entry.1.toList, isNameChar c = true := by
  have hall : (TokenKind.keywords.all fun entry => entry.1.toList.all isNameChar) = true := by
    decide
  intro entry hentry
  exact List.all_eq_true.mp (List.all_eq_true.mp hall entry hentry)

/-- The symbols of arithmetic. -/
def arithmetic : List (TokenKind × Char) :=
  [(.plus, '+'), (.minus, '-'), (.star, '*'), (.slash, '/'), (.lparen, '('), (.rparen, ')')]

/-- Of the symbols of arithmetic only a minus begins a longer one. -/
theorem spelling_of_arithmetic : ∀ entry ∈ arithmetic, ∀ rule ∈ Rule.all,
    rule.pattern.spelling.head? = some entry.2 →
      rule.pattern.spelling = [entry.2] ∨ entry.2 = '-' ∧ rule.pattern.spelling = ['-', '>'] := by
  decide

/-- The operators of arithmetic end words and numbers. -/
theorem delimited_of_arithmetic {kind : TokenKind} {c : Char} (h : (kind, c) ∈ arithmetic)
    (cs : List Char) : Delimited (c :: cs) := by
  have hclass : ∀ entry ∈ arithmetic, isNameChar entry.2 = false ∧ entry.2 ≠ '.' := by decide
  obtain ⟨hname, hpoint⟩ := hclass _ h
  exact .cons hname hpoint cs

/-- A declared text that begins with no quote is matched by a rule. -/
theorem Declared.exists_rule {c : Char} {text : List Char} (h : Declared (c :: text))
    (hc : c ≠ '"') : ∃ rule ∈ Rule.all, rule.pattern.Matches (c :: text) := by
  rcases h with hrule | ⟨body, -, heq⟩
  · exact hrule
  · exact absurd (List.cons.inj heq).1 hc

/-- A declared text that begins like a word is a word. -/
theorem Declared.isNameChar {c : Char} {text : List Char} (h : Declared (c :: text))
    (hc : isNameStart c = true) : ∀ d ∈ text, isNameChar d = true := by
  have hquote : c ≠ '"' := by
    rintro rfl
    exact absurd hc (by decide)
  have hslash : c ≠ '/' := by
    rintro rfl
    exact absurd hc (by decide)
  obtain ⟨rule, hrule, hmatch⟩ := h.exists_rule hquote
  rcases hmatch.eq_shape with hexact | hshape
  · have hspelling : rule.pattern.spelling = c :: text := by
      rw [hexact]
      rfl
    have hkeyword := mem_keywords_of_spelling rule hrule (by rw [hspelling]; exact congrArg some hc)
    rw [hspelling] at hkeyword
    obtain ⟨entry, hentry, heq⟩ := List.mem_map.mp hkeyword
    intro d hd
    exact isNameChar_of_keyword entry hentry d (heq ▸ List.mem_cons_of_mem c hd)
  · have hname : Pattern.shape (c :: text) = .name := by
      have hdigit := isDigit_of_isNameStart hc
      unfold Pattern.shape
      split <;> simp_all
    rw [hshape, hname] at hmatch
    cases hmatch with
    | name _ hrest => exact hrest

/-- A declared text that begins like a number is a number. -/
theorem Declared.isDigit_or_eq_point {c : Char} {text : List Char} (h : Declared (c :: text))
    (hc : c.isDigit = true) : ∀ d ∈ text, d.isDigit = true ∨ d = '.' := by
  have hquote : c ≠ '"' := by
    rintro rfl
    exact absurd hc (by decide)
  have hslash : c ≠ '/' := by
    rintro rfl
    exact absurd hc (by decide)
  have hdigits {ds : List Char} (hds : Pattern.digits.Matches ds) :
      ∀ d ∈ ds, d.isDigit = true := by
    cases hds with
    | digits _ hall => exact hall
  obtain ⟨rule, hrule, hmatch⟩ := h.exists_rule hquote
  intro d hd
  have hmem : d ∈ c :: text := List.mem_cons_of_mem c hd
  rcases hmatch.eq_shape with hexact | hshape
  · -- no fixed text begins with a digit
    have hdigit := spelling_ne_digit rule hrule
    rw [hexact] at hdigit
    exact absurd (congrArg some hc) hdigit
  · -- what begins with a digit has the shape of a number
    have hnumber : Pattern.shape (c :: text) = .digits ∨ Pattern.shape (c :: text) = .decimal := by
      have hif : Pattern.shape (c :: text) = if '.' ∈ c :: text then .decimal else .digits := by
        unfold Pattern.shape
        split <;> simp_all
      rw [hif]
      split
      · exact .inr rfl
      · exact .inl rfl
    generalize c :: text = number at hmatch hshape hnumber hmem
    rcases hnumber with hnumber | hnumber
    · rw [hshape, hnumber] at hmatch
      exact .inl (hdigits hmatch d hmem)
    · rw [hshape, hnumber] at hmatch
      cases hmatch with
      | decimal hwhole hfraction =>
          rcases List.mem_append.mp hmem with hmem | hmem
          · exact .inl (hdigits hwhole d hmem)
          · rcases List.mem_cons.mp hmem with rfl | hmem
            · exact .inr rfl
            · exact .inl (hdigits hfraction d hmem)

end Rule

/-- The digits of a number are read as the number. -/
theorem Decimal.readNat?_of_digits {cs : List Char} (h : Pattern.digits.Matches cs) :
    readNat? cs = some (Nat.ofDigitChars 10 cs 0) := by
  cases h with
  | digits hne hdigits =>
      have hempty : cs.isEmpty = false := List.isEmpty_eq_false_iff.mpr hne
      have hall : cs.all Char.isDigit = true := List.all_eq_true.mpr hdigits
      rw [readNat?, hempty, hall]
      rfl

/-! ### Lexemes before other text -/

namespace Lexeme

variable {kind : TokenKind} {c : Char} {text cs : List Char}

/-- If all declared texts that begin with a character go on with characters of one class, then a text
of that beginning is a lexeme before every other character. -/
theorem of_class {p : Char → Prop} (hnames : Rule.Names kind (c :: text))
    (hdeclared : ∀ other, Rule.Declared (c :: other) → ∀ d ∈ other, p d)
    (hcs : ∀ d rest, cs = d :: rest → ¬ p d) : Lexeme kind (c :: text) (c :: text ++ cs) := by
  refine ⟨List.prefix_append _ _, hnames, fun other hother hdecl => ?_⟩
  cases other with
  | nil => exact Nat.zero_le _
  | cons d other =>
      rw [List.cons_append] at hother
      obtain ⟨rfl, htail⟩ := List.cons_prefix_cons.mp hother
      by_cases hlength : other.length ≤ text.length
      · exact Nat.succ_le_succ hlength
      · have hbegins : text <+: other :=
          List.prefix_of_prefix_length_le (List.prefix_append text cs) htail (by omega)
        obtain ⟨us, rfl⟩ := hbegins
        cases us with
        | nil => simp at hlength
        | cons u us =>
            obtain ⟨rest, hrest⟩ := (List.prefix_append_right_inj _).mp htail
            have hu : p u := hdeclared _ hdecl u (by simp)
            exact absurd hu (hcs u (us ++ rest) hrest.symm)

/-- The kind of a word: that of the keyword, if it is one. -/
theorem names_word {name : String} (h : Pattern.name.Matches name.toList) :
    Rule.Names ((TokenKind.keyword? name).getD .ident) name.toList := by
  rcases hkeyword : TokenKind.keyword? name with _ | kind
  · refine ⟨⟨.ident, .name⟩, by decide, rfl, h, fun _ rule hrule hexact => ?_⟩
    have hspelling : rule.pattern.spelling = name.toList := by
      rw [hexact]
      rfl
    have hstart : rule.pattern.spelling.head?.map isNameStart = some true := by
      rw [hspelling]
      generalize name.toList = text at h
      cases h with
      | name hc => exact congrArg some hc
    have hmem := Rule.mem_keywords_of_spelling rule hrule hstart
    rw [hspelling] at hmem
    obtain ⟨entry, hentry, heq⟩ := List.mem_map.mp hmem
    have hne := List.lookup_eq_none_iff.mp hkeyword entry hentry
    rw [String.toList_inj.mp heq] at hne
    simp at hne
  · obtain ⟨before, behind, hall, -⟩ := List.lookup_eq_some_iff.mp hkeyword
    have hmem : (name, kind) ∈ TokenKind.keywords := by simp [hall]
    have hrule : Rule.ofSpelling (name, kind) ∈ Rule.all := by
      simp only [Rule.all, List.cons_append, List.mem_cons, List.mem_append]
      exact .inr (.inl (.inl (List.mem_map_of_mem hmem)))
    exact ⟨_, hrule, rfl, .exact _, nofun⟩

/-- A word ends before every character that does not go on a word. -/
theorem of_word {name : String} (h : Pattern.name.Matches name.toList) (hcs : Delimited cs) :
    Lexeme ((TokenKind.keyword? name).getD .ident) name.toList (name.toList ++ cs) := by
  have hnames := names_word h
  generalize (TokenKind.keyword? name).getD .ident = kind at hnames
  generalize name.toList = text at h hnames
  cases h with
  | name hc hrest =>
      refine of_class (p := (isNameChar · = true)) hnames (fun other hother => hother.isNameChar hc) ?_
      intro d rest hd
      rw [(hcs d rest hd).1]
      exact Bool.false_ne_true

/-- A number ends before every character that does not go on a number. -/
theorem of_digits (h : Pattern.digits.Matches text) (hcs : Delimited cs) :
    Lexeme .int text (text ++ cs) := by
  have hnames : Rule.Names .int text := ⟨⟨.int, .digits⟩, by decide, rfl, h, nofun⟩
  cases h with
  | digits hne hds =>
      obtain ⟨c, text, rfl⟩ := List.exists_cons_of_ne_nil hne
      have hc : c.isDigit = true := hds c List.mem_cons_self
      refine of_class (p := fun d => d.isDigit = true ∨ d = '.') hnames
        (fun other hother => hother.isDigit_or_eq_point hc) ?_
      rintro d rest hd (hdigit | rfl)
      · have hname := (hcs d rest hd).1
        simp [isNameChar, Char.isAlphanum, hdigit] at hname
      · exact (hcs '.' rest hd).2 rfl

/-- A closed string ends before every character. -/
theorem of_quoted (h : Pattern.quoted.Matches text) (cs : List Char) :
    Lexeme .string text (text ++ cs) :=
  ⟨List.prefix_append _ _, ⟨⟨.string, .quoted⟩, by decide, rfl, h, nofun⟩,
    fun _ hother hdeclared => hdeclared.length_le_of_quoted h hother⟩

/-- Symbols that are not the beginning of a longer lexeme. -/
def lone : List (TokenKind × Char) :=
  [(.lbracket, '['), (.rbracket, ']'), (.lbrace, '\x7b'), (.rbrace, '\x7d'), (.comma, ','),
    (.semicolon, ';'), (.colon, ':')]

/-- A lone symbol ends before every character. -/
theorem of_lone (h : (kind, c) ∈ lone) (cs : List Char) : Lexeme kind [c] ([c] ++ cs) := by
  have hbest : Rule.best? (c :: cs) Rule.all = some (kind, 1) := by
    simp only [lone, List.mem_cons, Prod.mk.injEq, List.not_mem_nil, or_false] at h
    rcases h with ⟨rfl, rfl⟩ | ⟨rfl, rfl⟩ | ⟨rfl, rfl⟩ | ⟨rfl, rfl⟩ | ⟨rfl, rfl⟩ | ⟨rfl, rfl⟩ |
      ⟨rfl, rfl⟩ <;> rfl
  obtain ⟨text, rest, heq, hlength, hlexeme⟩ := Rule.lexeme_of_best? hbest
  obtain ⟨d, rfl⟩ := List.length_eq_one_iff.mp hlength.symm
  obtain ⟨rfl, -⟩ := List.cons.inj heq
  exact hlexeme

/-- A symbol of arithmetic ends before every character that makes no arrow and no comment of it. -/
theorem of_arithmetic (h : (kind, c) ∈ Rule.arithmetic)
    (hcs : ∀ d rest, cs = d :: rest → ¬ (c = '-' ∧ d = '>') ∧ ¬ (c = '/' ∧ d = '/')) :
    Lexeme kind [c] ([c] ++ cs) := by
  have hclass : ∀ entry ∈ Rule.arithmetic, entry.2 ≠ '"' ∧ entry.2.isDigit = false ∧
      isNameStart entry.2 = false ∧ ⟨entry.1, .exact [entry.2]⟩ ∈ Rule.all := by
    decide
  obtain ⟨hquote, hdigit, hname, hrule⟩ := hclass _ h
  refine ⟨List.prefix_append _ _, ⟨_, hrule, rfl, .exact _, nofun⟩, fun other hother hdeclared => ?_⟩
  cases other with
  | nil => exact Nat.zero_le _
  | cons d other =>
      obtain ⟨rfl, htail⟩ := List.cons_prefix_cons.mp hother
      obtain ⟨rule, hrule, hmatch⟩ := hdeclared.exists_rule hquote
      rcases hmatch.eq_shape with hexact | hshape
      · have hspelling := Rule.spelling_of_arithmetic _ h rule hrule
        rw [hexact] at hspelling
        rcases hspelling rfl with heq | ⟨hminus, heq⟩
        · exact Nat.le_of_eq (congrArg List.length heq)
        · -- an arrow
          obtain rfl : other = ['>'] := (List.cons.inj heq).2
          obtain ⟨rest, hrest⟩ := htail
          exact absurd ⟨hminus, rfl⟩ (hcs '>' rest hrest.symm).1
      · rw [hshape] at hmatch
        unfold Pattern.shape at hmatch
        split at hmatch
        · -- a comment
          rename_i body heq
          obtain ⟨hslash, rfl⟩ := List.cons.inj heq
          obtain ⟨rest, hrest⟩ := htail
          exact absurd ⟨hslash, rfl⟩ (hcs '/' (body ++ rest) hrest.symm).2
        · rename_i heq
          exact absurd (List.cons.inj heq).1 hquote
        · rename_i heq
          cases heq
        · rename_i heq
          obtain ⟨rfl, rfl⟩ := List.cons.inj heq
          rw [hdigit] at hmatch
          cases hmatch with
          | name hc => exact absurd hc (by rw [hname]; decide)

end Lexeme

/-! ### Texts that spell tokens -/

/-- The text is split into tokens of the same kinds and lexemes as these, but for comments. -/
def Spells (cs : List Char) (ts : List Token) : Prop :=
  ∃ pieces, Cut cs pieces [] ∧
    ∀ p, EqUpToPlaces (Token.dropComments (Piece.tokens p pieces)) ts

namespace Spells

variable {c : Char} {cs text : List Char} {ts : List Token} {kind : TokenKind}

/-- The empty text spells no tokens. -/
theorem nil : Spells [] [] := ⟨[], .nil [], fun _ => rfl⟩

/-- A gap in front spells nothing. -/
theorem gap (h : Spells cs ts) (hc : isGap c = true) : Spells (c :: cs) ts := by
  obtain ⟨pieces, hcut, htokens⟩ := h
  exact ⟨.gap c :: pieces, .gap hc hcut, fun p => htokens (p.next c)⟩

/-- A lexeme in front spells a token, unless it is a comment. -/
theorem lexeme (h : Spells cs ts) (hlexeme : Lexeme kind text (text ++ cs))
    (hkind : kind ≠ .comment) :
    Spells (text ++ cs) (.sample kind (String.ofList text) :: ts) := by
  obtain ⟨pieces, hcut, htokens⟩ := h
  refine ⟨.lexeme kind text :: pieces, .lexeme hlexeme hcut, fun p => ?_⟩
  have hdrop : Token.dropComments (Piece.tokens p (.lexeme kind text :: pieces)) =
      ⟨kind, String.ofList text, p⟩ ::
        Token.dropComments (Piece.tokens (p.after text) pieces) :=
    List.filter_cons_of_pos (by simpa using hkind)
  rw [hdrop]
  exact congrArg (_ :: ·) (htokens (p.after text))

end Spells

/-- A source text that spells some tokens is split into them and the token that ends it. -/
theorem Token.scan_of_spells {source : String} {ts : List Token} (h : Spells source.toList ts)
    (file : String) : ∃ tokens, scan source file = .ok tokens ∧
      EqUpToPlaces (dropComments tokens) (ts ++ [.sample .eof ""]) := by
  obtain ⟨pieces, hcut, htokens⟩ := h
  refine ⟨_, scan_of_cut hcut file, ?_⟩
  rw [dropComments, List.filter_append, EqUpToPlaces, relocate_append, relocate_append]
  exact congrArg (· ++ _) (htokens _)

namespace Token

/-- The token of a word. -/
def word (name : String) : Token := sample ((TokenKind.keyword? name).getD .ident) name

/-- The token of one character. -/
def symbol (kind : TokenKind) (c : Char) : Token := sample kind (String.ofList [c])

/-- No word is a comment. -/
theorem kind_word_ne_comment (name : String) : (word name).kind ≠ .comment := by
  change (TokenKind.keyword? name).getD .ident ≠ .comment
  rcases hkeyword : TokenKind.keyword? name with _ | kind
  · decide
  · obtain ⟨before, behind, hall, -⟩ := List.lookup_eq_some_iff.mp hkeyword
    have hkinds : ∀ entry ∈ TokenKind.keywords, entry.2 ≠ .comment := by decide
    exact hkinds (name, kind) (by simp [hall])

end Token

namespace Spells

variable {cs : List Char} {ts : List Token}

/-- Gaps in front spell nothing. -/
theorem gaps (h : Spells cs ts) {between : List Char} (hgaps : ∀ c ∈ between, isGap c = true) :
    Spells (between ++ cs) ts := by
  induction between with
  | nil => exact h
  | cons c rest ih =>
      obtain ⟨hc, hrest⟩ := List.forall_mem_cons.mp hgaps
      exact (ih hrest).gap hc

/-- A character that is a lexeme by itself spells a token before any text. -/
theorem symbol (h : Spells cs ts) (kind : TokenKind) (c : Char) (hc : (kind, c) ∈ Lexeme.lone) :
    Spells (c :: cs) (.symbol kind c :: ts) := by
  refine h.lexeme (Lexeme.of_lone hc cs) ?_
  rintro rfl
  simp [Lexeme.lone] at hc

/-- An operator of arithmetic spells a token, if it makes no arrow and no comment with what follows.
-/
theorem arithmetic (h : Spells cs ts) (kind : TokenKind) (c : Char)
    (hc : (kind, c) ∈ Rule.arithmetic)
    (hcs : ∀ d rest, cs = d :: rest → ¬ (c = '-' ∧ d = '>') ∧ ¬ (c = '/' ∧ d = '/')) :
    Spells (c :: cs) (.symbol kind c :: ts) := by
  refine h.lexeme (Lexeme.of_arithmetic hc hcs) ?_
  rintro rfl
  simp [Rule.arithmetic] at hc

end Spells

/-! ### Texts in front of others -/

/-- In front of every text that ends words, the text spells these tokens. -/
def Spelled (text : List Char) (ts : List Token) : Prop :=
  ∀ cs us, Delimited cs → Spells cs us → Spells (text ++ cs) (ts ++ us)

/-- The text begins with a character that makes no arrow and no comment of a symbol before it. -/
def OpensOperand (text : List Char) : Prop :=
  ∃ c rest, text = c :: rest ∧ c ≠ '>' ∧ c ≠ '/'

/-- A number begins an operand. -/
theorem OpensOperand.of_digits {text : List Char} (h : Pattern.digits.Matches text) :
    OpensOperand text := by
  cases h with
  | digits hne hds =>
      obtain ⟨d, ds, rfl⟩ := List.exists_cons_of_ne_nil hne
      have hd : d.isDigit = true := hds d List.mem_cons_self
      refine ⟨d, ds, rfl, ?_, ?_⟩
      · rintro rfl
        exact absurd hd (by decide)
      · rintro rfl
        exact absurd hd (by decide)

namespace Spelled

/-- A name spells one token. -/
theorem word {name : String} (h : Pattern.name.Matches name.toList) :
    Spelled name.toList [.word name] := by
  intro cs us hcs hus
  have hspells := hus.lexeme (Lexeme.of_word h hcs) (Token.kind_word_ne_comment name)
  rwa [String.ofList_toList] at hspells

/-- A string in quotes spells one token. -/
theorem quoted {text : String} (h : Pattern.quoted.Matches text.toList) :
    Spelled text.toList [.sample .string text] := by
  intro cs us hcs hus
  have hspells := hus.lexeme (Lexeme.of_quoted h cs) (by decide)
  rwa [String.ofList_toList] at hspells

/-- The digits of a number. -/
theorem matches_repr (n : Nat) : Pattern.digits.Matches n.repr.toList := by
  rw [Nat.repr_eq_ofList_toDigits, String.toList_ofList]
  exact .digits Nat.toDigits_ne_nil fun d hd =>
    Nat.isDigit_of_mem_toDigits (by decide) (by decide) hd

/-- A number spells one token. -/
theorem digits {text : String} (h : Pattern.digits.Matches text.toList) :
    Spelled text.toList [.sample .int text] := by
  intro cs us hcs hus
  have hspells := hus.lexeme (Lexeme.of_digits h hcs) (by decide)
  rwa [String.ofList_toList] at hspells

/-- A natural number in decimal writing spells one token. -/
theorem natural (n : Nat) : Spelled n.repr.toList [.sample .int n.repr] := digits (matches_repr n)

/-- Two texts, the second of which ends words. -/
theorem append {text other : List Char} {ts us : List Token} (h : Spelled text ts)
    (hother : Spelled other us) (hends : ∀ cs, Delimited (other ++ cs)) :
    Spelled (text ++ other) (ts ++ us) := by
  intro cs vs hcs hvs
  have hbehind := hother cs vs hcs hvs
  rw [List.append_assoc, List.append_assoc]
  exact h _ _ (hends cs) hbehind

/-- A symbol of arithmetic before a text that makes no arrow and no comment of it. -/
theorem operator {text : List Char} {ts : List Token} (h : Spelled text ts) (kind : TokenKind)
    (c : Char) (hc : (kind, c) ∈ Rule.arithmetic) (hopens : OpensOperand text) :
    Spelled (c :: text) (.symbol kind c :: ts) := by
  intro cs us hcs hus
  obtain ⟨d, rest, rfl, harrow, hcomment⟩ := hopens
  refine (h cs us hcs hus).arithmetic kind c hc fun e behind he => ?_
  obtain ⟨rfl, -⟩ := List.cons.inj he
  exact ⟨fun h => harrow h.2, fun h => hcomment h.2⟩

/-- A text in parentheses. -/
theorem parenthesized {text : List Char} {ts : List Token} (h : Spelled text ts) :
    Spelled ('(' :: (text ++ [')'])) (.symbol .lparen '(' :: (ts ++ [.symbol .rparen ')'])) := by
  intro cs us hcs hus
  have hclose := hus.arithmetic .rparen ')' (by decide) fun _ _ _ =>
    ⟨fun h => absurd h.1 (by decide), fun h => absurd h.1 (by decide)⟩
  have hinner := h _ _ (.cons (by decide) (by decide) _) hclose
  have hopen := hinner.arithmetic .lparen '(' (by decide) fun _ _ _ =>
    ⟨fun h => absurd h.1 (by decide), fun h => absurd h.1 (by decide)⟩
  simpa using hopen

/-- A negative number in decimal writing spells two tokens, its sign and its digits. -/
theorem negative (n : Nat) :
    Spelled ('-' :: n.repr.toList) [.symbol .minus '-', .sample .int n.repr] :=
  (natural n).operator .minus '-' (by decide) (.of_digits (matches_repr n))

/-- A program that returns what the text writes. -/
theorem returning {text : String} {ts : List Token} (h : Spelled text.toList ts) :
    Spells ("return " ++ text ++ ";").toList
      (.word "return" :: (ts ++ [.symbol .semicolon ';'])) := by
  have hsemicolon := Spells.nil.symbol .semicolon ';' (by decide)
  have htext := h _ _ (.cons (by decide) (by decide) _) hsemicolon
  have hgap := htext.gap (c := ' ') (by decide)
  have hreturn : Pattern.name.Matches "return".toList := Pattern.name_of_all (by decide) (by decide)
  have hwhole := word hreturn _ _ (.cons (by decide) (by decide) _) hgap
  simpa using hwhole

end Spelled

/-! ### Lists with commas -/

namespace ParseTree.Separated

variable {α β : Type}

/-- Items with a comma between any two. -/
def commas : List α → Separated α
  | [] => []
  | [a] => [⟨a, none⟩]
  | a :: b :: rest => ⟨a, some (.symbol .comma ',')⟩ :: commas (b :: rest)

/-- The values of a list with commas are those it was made of. -/
@[simp] theorem values_commas : (items : List α) → values (commas items) = items
  | [] => rfl
  | [_] => rfl
  | a :: b :: rest => congrArg (a :: ·) (values_commas (b :: rest))

/-- A list with commas is punctuated by them, with one at the end or without. -/
theorem punctuated_commas (trailing : Bool) :
    (items : List α) → Punctuated .comma trailing (commas items)
  | [] => trivial
  | [_] => rfl
  | _ :: b :: rest => by
      refine ⟨rfl, fun h => ?_, punctuated_commas trailing (b :: rest)⟩
      have hvalues := congrArg values h
      rw [values_commas] at hvalues
      cases hvalues

/-- Texts with commas between them spell what each of them spells, with commas between. -/
theorem spelled_commas (text : α → List Char) {tree : α → β} {yield : β → List Token}
    {between : List Char} (hgaps : ∀ c ∈ between, isGap c = true) : (items : List α) →
    (∀ a ∈ items, Spelled (text a) (yield (tree a))) →
      Spelled ((',' :: between).intercalate (items.map text))
        (Separated.yield yield (commas (items.map tree)))
  | [], _ => fun _ _ _ hus => hus
  | [a], h => by
      intro cs us hcs hus
      simpa [List.intercalate, commas, Separated.yield] using
        h a List.mem_cons_self cs us hcs hus
  | a :: b :: rest, h => by
      intro cs us hcs hus
      obtain ⟨ha, hbehind⟩ := List.forall_mem_cons.mp h
      have hrest := spelled_commas text hgaps (b :: rest) hbehind cs us hcs hus
      have hcomma := (hrest.gaps hgaps).symbol .comma ',' (by decide)
      have hwhole := ha _ _ (.cons (by decide) (by decide) _) hcomma
      simpa [List.intercalate, commas, Separated.yield] using hwhole

end ParseTree.Separated

end StructScript
