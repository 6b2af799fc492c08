import StructScript.Proofs.Scanning.Pattern

/-!
# Lexemes

The lexeme at the beginning of some characters is the longest text there that is declared, which is
to say that a rule of the language matches it or that it is a string without an end. Its kind is
that of a rule which matches it, where a keyword is no name (`Rule.Names`). All this is said of texts
and rules alone, in `Lexeme`; what the scanner computes is exactly that (`Rule.lexeme_of_best?`,
`Rule.best?_of_lexeme`).
-/

namespace StructScript

/-- A string that is not closed: a quote, and what may stand behind one. -/
def UnclosedString (text : List Char) : Prop := ∃ body, QuotedBody body ∧ text = '"' :: body

namespace Rule

/-- The texts that a rule of the language matches, and the unclosed strings. -/
def Declared (text : List Char) : Prop :=
  (∃ rule ∈ Rule.all, rule.pattern.Matches text) ∨ UnclosedString text

/-- The kind is that of a rule that matches the text, and a text with a rule of its own is not
matched as a name. -/
def Names (kind : TokenKind) (text : List Char) : Prop :=
  ∃ rule ∈ Rule.all, rule.kind = kind ∧ rule.pattern.Matches text ∧
    (rule.pattern = .name → ∀ other ∈ Rule.all, other.pattern ≠ .exact text)

end Rule

/-- The text is the lexeme at the beginning of the characters, of this kind: it is the longest
declared text there. -/
structure Lexeme (kind : TokenKind) (text cs : List Char) : Prop where
  isPrefix : text <+: cs
  names : Rule.Names kind text
  longest : ∀ other, other <+: cs → Rule.Declared other → other.length ≤ text.length

namespace Pattern

/-- The text of a pattern that has only one. -/
def spelling : Pattern → List Char
  | exact text => text
  | _ => []

/-- Of the patterns with more than one text, the one that a text can belong to. -/
def shape : List Char → Pattern
  | '/' :: '/' :: _ => comment
  | '"' :: _ => quoted
  | [] => name
  | c :: rest => if c.isDigit then (if '.' ∈ c :: rest then decimal else digits) else name

end Pattern

/-- No character that begins a name is a digit. -/
theorem isDigit_of_isNameStart {c : Char} (h : isNameStart c = true) : c.isDigit = false := by
  change (decide (c.val ≥ 'A'.val ∧ c.val ≤ 'Z'.val) ||
    (c.val ≥ 'a'.val && c.val ≤ 'z'.val) || c = '_') = true at h
  simp only [Bool.or_eq_true, Bool.and_eq_true, decide_eq_true_eq] at h
  simp only [Char.isDigit, Bool.and_eq_false_iff, decide_eq_false_iff_not]
  rcases h with (⟨hlower, -⟩ | ⟨hlower, -⟩) | rfl
  · right
    intro hdigit
    exact absurd (UInt32.le_trans hlower hdigit) (by decide)
  · right
    intro hdigit
    exact absurd (UInt32.le_trans hlower hdigit) (by decide)
  · decide

/-- A text belongs to a pattern of its own or to the pattern of its shape. -/
theorem Pattern.Matches.eq_shape {p : Pattern} {text : List Char} (h : p.Matches text) :
    p = .exact text ∨ p = Pattern.shape text := by
  cases h with
  | exact => exact .inl rfl
  | comment => exact .inr rfl
  | quoted => exact .inr rfl
  | digits hne hds =>
      right
      obtain ⟨d, ds, rfl⟩ := List.exists_cons_of_ne_nil hne
      have hd : d.isDigit = true := hds d List.mem_cons_self
      have hpoint : '.' ∉ d :: ds := fun hmem => absurd (hds '.' hmem) (by decide)
      unfold Pattern.shape
      split <;> simp_all
  | @decimal whole fraction hwhole hfraction =>
      right
      cases hwhole with
      | digits hne hds =>
          obtain ⟨d, ds, rfl⟩ := List.exists_cons_of_ne_nil hne
          have hd : d.isDigit = true := hds d List.mem_cons_self
          have hpoint : '.' ∈ d :: (ds ++ '.' :: fraction) := by simp
          rw [List.cons_append]
          unfold Pattern.shape
          split <;> simp_all
  | @name c rest hc hrest =>
      right
      have hdigit : c.isDigit = false := isDigit_of_isNameStart hc
      unfold Pattern.shape
      split
      · rename_i heq
        cases heq
        exact absurd hc (by decide)
      · rename_i heq
        cases heq
        exact absurd hc (by decide)
      · rfl
      · simp_all

namespace Rule

/-! ### The rules of the language -/

/-- No fixed spelling begins with a quote. -/
theorem spelling_ne_quote : ∀ rule ∈ Rule.all, rule.pattern.spelling.head? ≠ some '"' := by
  decide

/-- None begins with a digit. -/
theorem spelling_ne_digit :
    ∀ rule ∈ Rule.all, rule.pattern.spelling.head?.map Char.isDigit ≠ some true := by
  decide

/-- None begins like a comment. -/
theorem spelling_ne_comment : ∀ rule ∈ Rule.all, ¬ ['/', '/'] <+: rule.pattern.spelling := by
  decide

/-- None has a gap inside. -/
theorem gap_not_mem_spelling : ∀ rule ∈ Rule.all, rule.pattern.spelling.any isGap = false := by
  decide

/-- No rule takes nothing. -/
theorem pattern_ne_nil : ∀ rule ∈ Rule.all, rule.pattern ≠ .exact [] := by
  decide

/-- No rule takes the end of the text. -/
theorem kind_ne_eof : ∀ rule ∈ Rule.all, rule.kind ≠ .eof := by
  decide

/-- No two rules have one pattern. -/
theorem kind_eq_of_pattern_eq :
    ∀ rule ∈ Rule.all, ∀ other ∈ Rule.all, rule.pattern = other.pattern → rule.kind = other.kind := by
  decide

/-- The rule for names is the last one. -/
theorem pairwise_ne_name : Rule.all.Pairwise fun rule _ => rule.pattern ≠ .name := by
  decide

/-- A text with a rule of its own has the shape of a name, if it has any. -/
theorem shape_of_exact {rule : Rule} (hrule : rule ∈ Rule.all) {text : List Char}
    (h : rule.pattern = .exact text) : Pattern.shape text = .name := by
  have hspelling : rule.pattern.spelling = text := by rw [h]; rfl
  have hquote := spelling_ne_quote rule hrule
  have hdigit := spelling_ne_digit rule hrule
  have hcomment := spelling_ne_comment rule hrule
  rw [hspelling] at hquote hdigit hcomment
  unfold Pattern.shape
  split
  · exact absurd (List.prefix_append ['/', '/'] _) hcomment
  · exact absurd rfl hquote
  · rfl
  · simp_all

/-- A text is named by one kind. -/
theorem Names.unique {kind kind' : TokenKind} {text : List Char} (h : Names kind text)
    (h' : Names kind' text) : kind = kind' := by
  obtain ⟨rule, hrule, rfl, hmatch, hname⟩ := h
  obtain ⟨other, hother, rfl, hmatch', hname'⟩ := h'
  apply kind_eq_of_pattern_eq rule hrule other hother
  rcases hmatch.eq_shape with hexact | hshape
  · rcases hmatch'.eq_shape with hexact' | hshape'
    · rw [hexact, hexact']
    · rw [shape_of_exact hrule hexact] at hshape'
      exact absurd hexact (hname' hshape' rule hrule)
  · rcases hmatch'.eq_shape with hexact' | hshape'
    · rw [shape_of_exact hother hexact'] at hshape
      exact absurd hexact' (hname hshape other hother)
    · rw [hshape, hshape']

/-- A rule takes a character. -/
theorem ne_nil_of_matches {rule : Rule} (hrule : rule ∈ Rule.all) {text : List Char}
    (h : rule.pattern.Matches text) : text ≠ [] := by
  rintro rfl
  rcases h.eq_shape with hexact | hshape
  · exact pattern_ne_nil rule hrule hexact
  · rw [hshape] at h
    cases h

/-- A rule that takes a quote first takes a string. -/
theorem quoted_of_matches {rule : Rule} (hrule : rule ∈ Rule.all) {text : List Char}
    (h : rule.pattern.Matches ('"' :: text)) : rule.pattern = .quoted := by
  rcases h.eq_shape with hexact | hshape
  · have hquote := spelling_ne_quote rule hrule
    rw [hexact] at hquote
    exact absurd rfl hquote
  · exact hshape

/-- A declared text with a gap in it is a string or a comment. -/
theorem Declared.cases_of_gap {text : List Char} (h : Declared text) {c : Char} (hmem : c ∈ text)
    (hgap : isGap c = true) :
    (∃ behind, text = '"' :: behind) ∨ ∃ body, '\n' ∉ body ∧ text = '/' :: '/' :: body := by
  obtain ⟨hdigit, hstart, hname⟩ :
      c.isDigit = false ∧ isNameStart c = false ∧ isNameChar c = false := by
    simp only [isGap, Bool.or_eq_true, decide_eq_true_eq] at hgap
    rcases hgap with (((rfl | rfl) | rfl) | rfl) | rfl <;> decide
  have hdigits {ds : List Char} (hds : Pattern.digits.Matches ds) : c ∉ ds := by
    cases hds with
    | digits hne hall => exact fun hmem => absurd (hall c hmem) (by simp [hdigit])
  rcases h with ⟨rule, hrule, hmatch⟩ | ⟨body, -, rfl⟩
  · have hspelling := gap_not_mem_spelling rule hrule
    generalize rule.pattern = pattern at hmatch hspelling
    cases hmatch with
    | exact => exact absurd hgap (List.any_eq_false.mp hspelling c hmem)
    | comment hbody => exact .inr ⟨_, hbody, rfl⟩
    | digits hne hds => exact absurd hmem (hdigits (.digits hne hds))
    | decimal hwhole hfraction =>
        have hpoint : c ≠ '.' := by
          rintro rfl
          exact absurd hgap (by decide)
        simp [hdigits hwhole, hdigits hfraction, hpoint] at hmem
    | quoted => exact .inl ⟨_, rfl⟩
    | @name first rest hfirst hrest =>
        rcases List.mem_cons.mp hmem with rfl | hmem
        · exact absurd hfirst (by simp [hstart])
        · exact absurd (hrest c hmem) (by simp [hname])
  · exact .inl ⟨body, rfl⟩

/-- No rule takes a gap first. -/
theorem isGap_of_matches {rule : Rule} (hrule : rule ∈ Rule.all) {c : Char} {text : List Char}
    (h : rule.pattern.Matches (c :: text)) : isGap c = false := by
  rw [← Bool.not_eq_true]
  intro hgap
  have hdeclared : Declared (c :: text) := .inl ⟨rule, hrule, h⟩
  rcases hdeclared.cases_of_gap List.mem_cons_self hgap with ⟨_, hstring⟩ | ⟨_, -, hcomment⟩
  · obtain rfl : c = '"' := (List.cons.inj hstring).1
    exact absurd hgap (by decide)
  · obtain rfl : c = '/' := (List.cons.inj hcomment).1
    exact absurd hgap (by decide)

/-- A declared text that begins with a quote is a string, closed or not. -/
theorem Declared.exists_body {text : List Char} (h : Declared ('"' :: text)) :
    ∃ body, QuotedBody body ∧ body <+: text ∧ text.length ≤ body.length + 1 := by
  rcases h with ⟨rule, hrule, hmatch⟩ | ⟨body, hbody, heq⟩
  · rw [quoted_of_matches hrule hmatch] at hmatch
    generalize htext : '"' :: text = whole at hmatch
    cases hmatch with
    | @quoted body hbody =>
        obtain rfl : text = body ++ ['"'] := (List.cons.inj htext).2
        exact ⟨body, hbody, List.prefix_append body ['"'], by simp⟩
  · obtain rfl : text = body := (List.cons.inj heq).2
    exact ⟨text, hbody, List.prefix_refl text, Nat.le_succ _⟩

/-- Nothing that is declared goes on behind the quote that closes a string. -/
theorem Declared.length_le_of_quoted {text other cs : List Char} (h : Declared other)
    (htext : Pattern.quoted.Matches text) (hbegins : other <+: text ++ cs) :
    other.length ≤ text.length := by
  cases htext with
  | @quoted body hbody =>
      cases other with
      | nil => exact Nat.zero_le _
      | cons c behind =>
          rw [List.cons_append, List.append_assoc] at hbegins
          obtain ⟨rfl, htail⟩ := List.cons_prefix_cons.mp hbegins
          obtain ⟨inside, hinside, hbehind, hlength⟩ := h.exists_body
          have hle := hbody.length_le hinside (hbehind.trans htail)
          simp only [List.length_cons, List.length_append, List.length_nil]
          omega

end Rule

namespace Lexeme

/-! ### Lexemes -/

/-- There is one lexeme at the beginning of some characters. -/
theorem unique {kind kind' : TokenKind} {text text' cs : List Char} (h : Lexeme kind text cs)
    (h' : Lexeme kind' text' cs) : kind = kind' ∧ text = text' := by
  obtain ⟨rule, hrule, -, hmatch, -⟩ := h.names
  obtain ⟨rule', hrule', -, hmatch', -⟩ := h'.names
  have hle := h.longest text' h'.isPrefix (.inl ⟨rule', hrule', hmatch'⟩)
  have hle' := h'.longest text h.isPrefix (.inl ⟨rule, hrule, hmatch⟩)
  obtain rfl : text = text' :=
    (List.prefix_of_prefix_length_le h.isPrefix h'.isPrefix hle').eq_of_length
      (Nat.le_antisymm hle' hle)
  exact ⟨h.names.unique h'.names, rfl⟩

/-- A lexeme takes a character. -/
theorem ne_nil {kind : TokenKind} {text cs : List Char} (h : Lexeme kind text cs) : text ≠ [] := by
  obtain ⟨rule, hrule, -, hmatch, -⟩ := h.names
  exact Rule.ne_nil_of_matches hrule hmatch

/-- A lexeme does not stand for the end of the text. -/
theorem kind_ne_eof {kind : TokenKind} {text cs : List Char} (h : Lexeme kind text cs) :
    kind ≠ .eof := by
  obtain ⟨rule, hrule, rfl, -⟩ := h.names
  exact Rule.kind_ne_eof rule hrule

/-- A lexeme begins with no gap. -/
theorem isGap_head {kind : TokenKind} {c : Char} {text cs : List Char}
    (h : Lexeme kind (c :: text) cs) : isGap c = false := by
  obtain ⟨rule, hrule, -, hmatch, -⟩ := h.names
  exact Rule.isGap_of_matches hrule hmatch

end Lexeme

namespace Rule

/-! ### The rule that takes most -/

/-- Nothing is taken if no rule takes anything. -/
theorem best?_eq_none_iff {cs : List Char} {rules : List Rule} :
    best? cs rules = none ↔ ∀ rule ∈ rules, rule.pattern.longest cs = none := by
  induction rules with
  | nil => simp [best?]
  | cons rule rest ih =>
      rw [best?, List.forall_mem_cons, ← ih]
      split
      · simp_all
      · simp_all
      · split <;> simp_all

/-- What is taken is taken by a rule; those before it take less, those behind it no more. -/
theorem exists_of_best? {cs : List Char} {kind : TokenKind} {n : Nat} {rules : List Rule}
    (h : best? cs rules = some (kind, n)) :
    ∃ before rule behind, rules = before ++ rule :: behind ∧ rule.kind = kind ∧
      rule.pattern.longest cs = some n ∧
      (∀ other ∈ before, ∀ m, other.pattern.longest cs = some m → m < n) ∧
      ∀ other ∈ behind, ∀ m, other.pattern.longest cs = some m → m ≤ n := by
  induction rules generalizing kind n with
  | nil => exact nomatch h
  | cons rule rest ih =>
      unfold best? at h
      split at h
      · -- the first rule takes nothing
        rename_i hnone
        obtain ⟨before, taken, behind, rfl, hkind, hn, hbefore, hbehind⟩ := ih h
        refine ⟨rule :: before, taken, behind, rfl, hkind, hn, ?_, hbehind⟩
        simpa [hnone] using hbefore
      · -- only the first rule takes something
        rename_i n' hn' hnone
        obtain ⟨rfl, rfl⟩ : rule.kind = kind ∧ n' = n := by simpa using h
        refine ⟨[], rule, rest, rfl, rfl, hn', nofun, fun other hother m hm => ?_⟩
        have hnot := best?_eq_none_iff.mp hnone other hother
        simp [hnot] at hm
      · -- the first rule wins unless a later one takes more
        rename_i n' kind' m' hn' hlater
        obtain ⟨before, taken, behind, rfl, hkind, hm', hbefore, hbehind⟩ := ih hlater
        by_cases hle : m' ≤ n'
        · obtain ⟨rfl, rfl⟩ : rule.kind = kind ∧ n' = n := by simpa [hle] using h
          refine ⟨[], rule, before ++ taken :: behind, rfl, rfl, hn', nofun, ?_⟩
          intro other hother m hm
          rcases List.mem_append.mp hother with hother | hother
          · have hlt := hbefore other hother m hm
            omega
          · rcases List.mem_cons.mp hother with rfl | hother
            · obtain rfl : m' = m := by simpa [hm'] using hm
              exact hle
            · exact Nat.le_trans (hbehind other hother m hm) hle
        · obtain ⟨rfl, rfl⟩ : kind' = kind ∧ m' = n := by simpa [hle] using h
          refine ⟨rule :: before, taken, behind, rfl, hkind, hm', ?_, hbehind⟩
          intro other hother m hm
          rcases List.mem_cons.mp hother with rfl | hother
          · obtain rfl : n' = m := by simpa [hn'] using hm
            omega
          · exact hbefore other hother m hm

/-- Of the rules of the language, none takes more than what is taken. -/
theorem le_of_best? {cs : List Char} {kind : TokenKind} {n : Nat}
    (h : best? cs all = some (kind, n)) {rule : Rule} (hrule : rule ∈ all) {m : Nat}
    (hm : rule.pattern.longest cs = some m) : m ≤ n := by
  obtain ⟨before, taken, behind, hall, -, hn, hbefore, hbehind⟩ := exists_of_best? h
  rw [hall] at hrule
  rcases List.mem_append.mp hrule with hrule | hrule
  · exact Nat.le_of_lt (hbefore rule hrule m hm)
  · rcases List.mem_cons.mp hrule with rfl | hrule
    · obtain rfl : n = m := by simpa [hn] using hm
      exact Nat.le_refl n
    · exact hbehind rule hrule m hm

/-- A text with a rule of its own is not taken as a name. -/
theorem not_exact_of_best? {before behind : List Rule} {taken rule : Rule} {text rest : List Char}
    (hall : all = before ++ taken :: behind) (hname : taken.pattern = .name)
    (hbefore : ∀ other ∈ before, ∀ m, other.pattern.longest (text ++ rest) = some m →
      m < text.length)
    (hrule : rule ∈ all) : rule.pattern ≠ .exact text := by
  intro hexact
  have hpairwise := pairwise_ne_name
  rw [hall] at hrule hpairwise
  rcases List.mem_append.mp hrule with hrule | hrule
  · obtain ⟨m, hm, hle⟩ := Pattern.exists_longest_of_matches (.exact text) rest
    have hlt := hbefore rule hrule m (by rw [hexact]; exact hm)
    omega
  · rcases List.mem_cons.mp hrule with rfl | hrule
    · rw [hname] at hexact
      cases hexact
    · have htaken := (List.pairwise_cons.mp (List.pairwise_append.mp hpairwise).2.1).1 rule hrule
      exact htaken hname

/-- What the scanner takes is the lexeme at the beginning of the characters. -/
theorem lexeme_of_best? {cs : List Char} {kind : TokenKind} {n : Nat}
    (h : best? cs all = some (kind, n)) :
    ∃ text rest, cs = text ++ rest ∧ n = text.length ∧ Lexeme kind text cs := by
  obtain ⟨before, taken, behind, hall, rfl, hn, hbefore, -⟩ := exists_of_best? h
  have htaken : taken ∈ all := by simp [hall]
  obtain ⟨text, rest, rfl, rfl, hmatch⟩ := Pattern.exists_of_longest hn
  refine ⟨text, rest, rfl, rfl, List.prefix_append text rest, ?_, ?_⟩
  · exact ⟨taken, htaken, rfl, hmatch, fun hname other hother =>
      not_exact_of_best? hall hname hbefore hother⟩
  · rintro other hother (⟨rule, hrule, hrulematch⟩ | ⟨body, hbody, rfl⟩)
    · obtain ⟨behind', hbehind'⟩ := hother
      obtain ⟨m, hm, hle⟩ := Pattern.exists_longest_of_matches hrulematch behind'
      rw [hbehind'] at hm
      exact Nat.le_trans hle (le_of_best? h hrule hm)
    · -- The characters begin with a quote, so what is taken is a closed string.
      obtain ⟨c, text', rfl⟩ := List.exists_cons_of_ne_nil (ne_nil_of_matches htaken hmatch)
      obtain rfl : '"' = c := (List.cons_prefix_cons.mp hother).1
      rw [quoted_of_matches htaken hmatch] at hmatch
      exact Declared.length_le_of_quoted (.inr ⟨body, hbody, rfl⟩) hmatch hother

/-- The lexeme at the beginning of the characters is what the scanner takes. -/
theorem best?_of_lexeme {kind : TokenKind} {text cs : List Char} (h : Lexeme kind text cs) :
    best? cs all = some (kind, text.length) := by
  obtain ⟨rule, hrule, hkind, hmatch, hname⟩ := h.names
  cases hbest : best? cs all with
  | none =>
      obtain ⟨rest, rfl⟩ := h.isPrefix
      obtain ⟨m, hm, -⟩ := Pattern.exists_longest_of_matches hmatch rest
      have hnone := best?_eq_none_iff.mp hbest rule hrule
      rw [hm] at hnone
      cases hnone
  | some taken =>
      obtain ⟨kind', n⟩ := taken
      obtain ⟨text', rest, hcs, rfl, h'⟩ := lexeme_of_best? hbest
      obtain ⟨rfl, rfl⟩ := h.unique h'
      rfl

end Rule

end StructScript
