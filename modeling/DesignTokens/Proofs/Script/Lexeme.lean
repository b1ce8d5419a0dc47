import DesignTokens.Proofs.Script.Reader

/-!
# Lexemes

A script is split into lexemes one character at a time: words, texts in quotes, comments up to the
end of a line, and marks of one character.  Blanks and comments between stars do not count, except
for the line breaks in them: a lexeme is fresh if a line has ended since the lexeme before.  Which
characters make up words is left to an alphabet.
-/

namespace DesignTokens
namespace Script

/-! ## Characters -/

/-- The characters that end a line. -/
def terminators : List Char := ['\n', '\r', '\u2028', '\u2029']

/-- Whether a character ends a line. -/
def isTerminator (c : Char) : Bool := terminators.contains c

theorem isSpace_of_isTerminator {c : Char} (ends : isTerminator c = true) : isSpace c = true := by
  have among : terminators ⊆ blanks := by decide
  exact List.contains_iff_mem.mpr (among (List.contains_iff_mem.mp ends))

theorem isTerminator_eq_false_of_all {cs : List Char} (all : cs.all (!isTerminator ·) = true) :
    ∀ c ∈ cs, isTerminator c = false :=
  fun c member => (Bool.not_eq_true' _).mp (List.all_eq_true.mp all c member)

/-- The characters that are blank or begin a comment or a text. -/
def special : List Char := '/' :: '\'' :: '"' :: blanks

/-- Whether a character may stand for itself in single quotes. -/
def isPlain (c : Char) : Bool := !(['\'', '\\', '\n', '\r'].contains c)

/-- The characters of words.  Those of ASCII are the letters, the digits, the underscore and the
dollar sign. -/
structure Alphabet where
  /-- Whether an identifier may begin with a character. -/
  isStart : Char → Bool
  /-- Whether a character may stand in a word. -/
  isPart : Char → Bool
  isStart_ascii : ∀ c, c.toNat < 128 → isStart c = Literal.isNameStart c
  isPart_ascii : ∀ c, c.toNat < 128 → isPart c = Literal.isNamePart c
  isPart_of_isStart : ∀ c, isStart c = true → isPart c = true
  isPart_of_isSpace : ∀ c, isSpace c = true → isPart c = false

/-- The alphabet without any characters beyond ASCII. -/
def Alphabet.ascii : Alphabet where
  isStart := Literal.isNameStart
  isPart := Literal.isNamePart
  isStart_ascii _ _ := rfl
  isPart_ascii _ _ := rfl
  isPart_of_isStart c start := by rw [Literal.isNamePart, start, Bool.true_or]
  isPart_of_isSpace c space := by
    by_contra part
    have word : isWordPart c = true := by
      rw [isWordPart, Bool.eq_true_of_not_eq_false part, Bool.true_or]
    exact Bool.false_ne_true ((isSpace_eq_false_of_isWordPart word).symm.trans space)

/-! ## Splitting -/

/-- What stands in a script. -/
inductive Symbol
  /-- A name, a keyword or a number. -/
  | word (cs : List Char)
  /-- What a text in quotes denotes. -/
  | text (cs : List Char)
  /-- A comment up to the end of its line. -/
  | comment (cs : List Char)
  /-- Any other character. -/
  | mark (c : Char)
  /-- A text that is not closed in its line, or has an escape that is not read. -/
  | broken
  deriving DecidableEq

/-- A symbol, and whether a line has ended since the symbol before. -/
structure Lexeme where
  /-- Whether a line has ended. -/
  fresh : Bool
  /-- The symbol. -/
  symbol : Symbol

/-- What has been read since the last lexeme. -/
inductive Spot
  /-- Nothing that counts. -/
  | between
  /-- Characters of a word. -/
  | word (before : List Char)
  /-- A slash. -/
  | slash
  /-- Characters of a comment up to the end of its line. -/
  | comment (before : List Char)
  /-- A part of a comment between stars, the last character of which may be a star. -/
  | block (starred : Bool)
  /-- A quote and the characters of a text. -/
  | text (quote : Char) (before : List Char)
  /-- A quote, the characters of a text, and a backslash. -/
  | escape (quote : Char) (before : List Char)

/-- Lexemes that are complete, and what has been read since. -/
structure Split where
  /-- The lexemes. -/
  lexemes : List Lexeme
  /-- What has been read since. -/
  spot : Spot
  /-- Whether a line has ended since. -/
  fresh : Bool

namespace Alphabet

variable (alphabet : Alphabet)

/-- The lexeme that the end of a script completes. -/
def flush (fresh : Bool) : Spot → List Lexeme
  | .between => []
  | .word before => [⟨fresh, .word before⟩]
  | .slash => [⟨fresh, .mark '/'⟩]
  | .comment before => [⟨fresh, .comment before⟩]
  | _ => [⟨fresh, .broken⟩]

/-- A character that belongs to nothing before it. -/
def turn (fresh : Bool) (c : Char) : Split :=
  if isTerminator c then ⟨[], .between, true⟩
  else if isSpace c then ⟨[], .between, fresh⟩
  else if c = '/' then ⟨[], .slash, fresh⟩
  else if c = '\'' ∨ c = '"' then ⟨[], .text c [], fresh⟩
  else if alphabet.isPart c then ⟨[], .word [c], fresh⟩
  else ⟨[⟨fresh, .mark c⟩], .between, false⟩

/-- A character behind a lexeme that it does not belong to. -/
def turnAfter (lexeme : Lexeme) (c : Char) : Split :=
  let split := alphabet.turn false c
  { split with lexemes := lexeme :: split.lexemes }

/-- A character. -/
def step (fresh : Bool) (c : Char) : Spot → Split
  | .between => alphabet.turn fresh c
  | .word before =>
      if alphabet.isPart c then ⟨[], .word (before ++ [c]), fresh⟩
      else alphabet.turnAfter ⟨fresh, .word before⟩ c
  | .slash =>
      if c = '/' then ⟨[], .comment [], fresh⟩
      else if c = '*' then ⟨[], .block false, fresh⟩
      else alphabet.turnAfter ⟨fresh, .mark '/'⟩ c
  | .comment before =>
      if isTerminator c then ⟨[⟨fresh, .comment before⟩], .between, true⟩
      else ⟨[], .comment (before ++ [c]), fresh⟩
  | .block starred =>
      if starred ∧ c = '/' then ⟨[], .between, fresh⟩
      else ⟨[], .block (c = '*'), fresh || isTerminator c⟩
  | .text quote before =>
      if c = quote then ⟨[⟨fresh, .text before⟩], .between, false⟩
      else if c = '\\' then ⟨[], .escape quote before, fresh⟩
      else if c = '\n' ∨ c = '\r' then ⟨[⟨fresh, .broken⟩], .between, true⟩
      else ⟨[], .text quote (before ++ [c]), fresh⟩
  | .escape quote before =>
      match unescape? c with
      | some c => ⟨[], .text quote (before ++ [c]), fresh⟩
      | none => ⟨[⟨fresh, .broken⟩], .between, false⟩

/-- The lexemes of a script, behind what has been read. -/
def lexemes (spot : Spot) (fresh : Bool) : List Char → List Lexeme
  | [] => flush fresh spot
  | c :: rest =>
      let split := alphabet.step fresh c spot
      split.lexemes ++ lexemes split.spot split.fresh rest

variable {alphabet} {fresh : Bool} {rest : List Char}

/-! ### Words and marks -/

theorem lexemes_blank (fresh : Bool) (rest : List Char) :
    alphabet.lexemes .between fresh (' ' :: rest) = alphabet.lexemes .between fresh rest := rfl

theorem lexemes_lineFeed (fresh : Bool) (rest : List Char) :
    alphabet.lexemes .between fresh ('\n' :: rest) = alphabet.lexemes .between true rest := rfl

theorem lexemes_quote (fresh : Bool) (rest : List Char) :
    alphabet.lexemes .between fresh ('\'' :: rest) = alphabet.lexemes (.text '\'' []) fresh rest :=
  rfl

theorem isPart_eq_false_of_ascii {c : Char} (ascii : c.toNat < 128)
    (other : Literal.isNamePart c = false) : alphabet.isPart c = false := by
  rw [alphabet.isPart_ascii c ascii, other]

theorem isPart_blank : alphabet.isPart ' ' = false := isPart_eq_false_of_ascii (by decide) rfl

theorem turn_of_not_mem_special {c : Char} (plain : c ∉ special) (fresh : Bool) :
    alphabet.turn fresh c =
      if alphabet.isPart c then ⟨[], .word [c], fresh⟩
      else ⟨[⟨fresh, .mark c⟩], .between, false⟩ := by
  simp only [special, List.mem_cons, not_or] at plain
  obtain ⟨slash, single, double, space⟩ := plain
  have space : isSpace c = false := by rwa [isSpace, List.contains_eq_mem, decide_eq_false_iff_not]
  have goesOn : isTerminator c = false := by
    by_contra ends
    rw [isSpace_of_isTerminator (Bool.eq_true_of_not_eq_false ends)] at space
    exact absurd space nofun
  simp [turn, goesOn, space, slash, single, double]

theorem lexemes_mark {c : Char} (ascii : c.toNat < 128) (other : Literal.isNamePart c = false)
    (plain : c ∉ special) (fresh : Bool) (rest : List Char) :
    alphabet.lexemes .between fresh (c :: rest) =
      ⟨fresh, .mark c⟩ :: alphabet.lexemes .between false rest := by
  have mark : alphabet.isPart c = false := isPart_eq_false_of_ascii ascii other
  rw [lexemes, step, turn_of_not_mem_special plain, if_neg (ne_true_of_eq_false mark)]
  rfl

theorem not_mem_special_of_isPart {c : Char} (part : alphabet.isPart c = true) :
    c ∉ special := by
  have apart : ∀ mark, alphabet.isPart mark = false → c ≠ mark := by
    rintro mark none rfl
    exact Bool.false_ne_true (none.symm.trans part)
  simp only [special, List.mem_cons, not_or]
  refine ⟨apart _ (isPart_eq_false_of_ascii (by decide) rfl),
    apart _ (isPart_eq_false_of_ascii (by decide) rfl),
    apart _ (isPart_eq_false_of_ascii (by decide) rfl), fun space => ?_⟩
  exact apart c (alphabet.isPart_of_isSpace c (List.contains_iff_mem.mpr space)) rfl

theorem lexemes_word_append (before : List Char) {cs : List Char}
    (parts : ∀ c ∈ cs, alphabet.isPart c = true) :
    alphabet.lexemes (.word before) fresh (cs ++ rest) =
      alphabet.lexemes (.word (before ++ cs)) fresh rest := by
  induction cs generalizing before with
  | nil => rw [List.nil_append, List.append_nil]
  | cons c cs ih =>
      obtain ⟨here, others⟩ := List.forall_mem_cons.mp parts
      rw [List.cons_append, lexemes, step, if_pos here]
      exact (ih _ others).trans (by rw [List.append_assoc, List.singleton_append])

theorem lexemes_word_end (before : List Char) {c : Char} (ends : alphabet.isPart c = false) :
    alphabet.lexemes (.word before) fresh (c :: rest) =
      ⟨fresh, .word before⟩ :: alphabet.lexemes .between false (c :: rest) := by
  rw [lexemes, step, if_neg (ne_true_of_eq_false ends)]
  rfl

/-- A word of one character or more, up to a character that does not belong to it. -/
theorem lexemes_word {word : List Char} (nonempty : word ≠ [])
    (parts : ∀ c ∈ word, alphabet.isPart c = true) {c : Char} (ends : alphabet.isPart c = false)
    (fresh : Bool) (rest : List Char) :
    alphabet.lexemes .between fresh (word ++ c :: rest) =
      ⟨fresh, .word word⟩ :: alphabet.lexemes .between false (c :: rest) := by
  obtain ⟨first, others, rfl⟩ := List.exists_cons_of_ne_nil nonempty
  obtain ⟨here, inside⟩ := List.forall_mem_cons.mp parts
  rw [List.cons_append, lexemes, step,
    turn_of_not_mem_special (not_mem_special_of_isPart here), if_pos here]
  exact (lexemes_word_append [first] inside).trans (lexemes_word_end _ ends)

theorem lexemes_ascii_word {word : List Char}
    (ascii : (!word.isEmpty && word.all fun c => c.toNat < 128 && Literal.isNamePart c) = true)
    {c : Char} (ends : alphabet.isPart c = false) (fresh : Bool) (rest : List Char) :
    alphabet.lexemes .between fresh (word ++ c :: rest) =
      ⟨fresh, .word word⟩ :: alphabet.lexemes .between false (c :: rest) := by
  simp only [Bool.and_eq_true, Bool.not_eq_true', List.isEmpty_eq_false_iff, List.all_eq_true,
    decide_eq_true_eq] at ascii
  refine lexemes_word ascii.1 (fun c member => ?_) ends fresh rest
  rw [alphabet.isPart_ascii c (ascii.2 c member).1, (ascii.2 c member).2]

/-! ### Comments -/

/-- A comment reaches to the end of the line. -/
theorem lexemes_comment (before cs : List Char) :
    alphabet.lexemes (.comment before) fresh cs =
      ⟨fresh, .comment (before ++ cs.takeWhile (!isTerminator ·))⟩ ::
        alphabet.lexemes .between true (cs.dropWhile (!isTerminator ·)).tail := by
  induction cs generalizing before with
  | nil => simp [lexemes, flush]
  | cons c cs ih =>
      cases ends : isTerminator c with
      | true => simp [lexemes, step, ends]
      | false =>
          rw [lexemes, step, if_neg (ne_true_of_eq_false ends)]
          simpa [ends] using ih (before ++ [c])

/-- A comment behind two slashes, up to a line feed that is the first character to end the line. -/
theorem lexemes_lineComment {cs : List Char} (line : ∀ c ∈ cs, isTerminator c = false)
    (fresh : Bool) (rest : List Char) :
    alphabet.lexemes .between fresh ('/' :: '/' :: (cs ++ '\n' :: rest)) =
      ⟨fresh, .comment cs⟩ :: alphabet.lexemes .between true rest := by
  have opened : alphabet.lexemes .between fresh ('/' :: '/' :: (cs ++ '\n' :: rest)) =
      alphabet.lexemes (.comment []) fresh (cs ++ '\n' :: rest) := rfl
  have goesOn : ∀ c ∈ cs, (!isTerminator c) = true := by simpa using line
  have ends : (!isTerminator '\n') = false := rfl
  rw [opened, lexemes_comment, List.takeWhile_append_of_pos goesOn,
    List.dropWhile_append_of_pos goesOn]
  simp [ends]

/-! ### Texts -/

theorem lexemes_text_cons (before : List Char) (c : Char) :
    alphabet.lexemes (.text '\'' before) fresh (c :: rest) =
      if c = '\'' then ⟨fresh, .text before⟩ :: alphabet.lexemes .between false rest
      else if c = '\\' then alphabet.lexemes (.escape '\'' before) fresh rest
      else if c = '\n' ∨ c = '\r' then ⟨fresh, .broken⟩ :: alphabet.lexemes .between true rest
      else alphabet.lexemes (.text '\'' (before ++ [c])) fresh rest := by
  rw [lexemes, step]
  split_ifs <;> rfl

theorem lexemes_escape_cons (before : List Char) (c : Char) :
    alphabet.lexemes (.escape '\'' before) fresh (c :: rest) =
      match unescape? c with
      | some c => alphabet.lexemes (.text '\'' (before ++ [c])) fresh rest
      | none => ⟨fresh, .broken⟩ :: alphabet.lexemes .between false rest := by
  rw [lexemes, step]
  cases unescape? c <;> rfl

theorem lexemes_text_of_isPlain (before : List Char) {c : Char} (plain : isPlain c = true) :
    alphabet.lexemes (.text '\'' before) fresh (c :: rest) =
      alphabet.lexemes (.text '\'' (before ++ [c])) fresh rest := by
  rw [lexemes_text_cons]
  simp only [isPlain, Bool.not_eq_true', List.contains_eq_mem, decide_eq_false_iff_not,
    List.mem_cons, List.not_mem_nil, or_false, not_or] at plain
  rw [if_neg plain.1, if_neg plain.2.1, if_neg (not_or.mpr plain.2.2)]

/-- A text without special characters denotes itself. -/
theorem lexemes_text (before : List Char) {cs : List Char} (plain : ∀ c ∈ cs, isPlain c = true) :
    alphabet.lexemes (.text '\'' before) fresh (cs ++ '\'' :: rest) =
      ⟨fresh, .text (before ++ cs)⟩ :: alphabet.lexemes .between false rest := by
  induction cs generalizing before with
  | nil => rw [List.nil_append, lexemes_text_cons, if_pos rfl, List.append_nil]
  | cons c cs ih =>
      obtain ⟨here, others⟩ := List.forall_mem_cons.mp plain
      rw [List.cons_append, lexemes_text_of_isPlain _ here, ih _ others, List.append_assoc,
        List.singleton_append]

/-- The first lexeme is broken, or a text of at most so many characters. -/
def OpensWithText (fresh : Bool) (size : Nat) (lexemes : List Lexeme) : Prop :=
  ∃ symbol others, lexemes = ⟨fresh, symbol⟩ :: others ∧
    (symbol = .broken ∨ ∃ value, symbol = .text value ∧ value.length ≤ size)

theorem OpensWithText.mono {size bound : Nat} {lexemes : List Lexeme}
    (opens : OpensWithText fresh size lexemes) (le : size ≤ bound) :
    OpensWithText fresh bound lexemes := by
  obtain ⟨symbol, others, whole, broken | ⟨value, text, short⟩⟩ := opens
  · exact ⟨symbol, others, whole, .inl broken⟩
  · exact ⟨symbol, others, whole, .inr ⟨value, text, short.trans le⟩⟩

/-- An escape takes two characters and denotes one, and a quote ends a text, so a text denotes no
more characters than it has. -/
theorem opensWithText (alphabet : Alphabet) (fresh : Bool) (before cs rest : List Char) :
    OpensWithText fresh (before.length + cs.length)
        (alphabet.lexemes (.text '\'' before) fresh (cs ++ '\'' :: '\n' :: rest)) ∧
      OpensWithText fresh (before.length + cs.length)
        (alphabet.lexemes (.escape '\'' before) fresh (cs ++ '\'' :: '\n' :: rest)) := by
  have broken : ∀ size others, OpensWithText fresh size (⟨fresh, .broken⟩ :: others) :=
    fun _ others => ⟨.broken, others, rfl, .inl rfl⟩
  have closed : ∀ value size others, List.length value ≤ size →
      OpensWithText fresh size (⟨fresh, .text value⟩ :: others) :=
    fun value _ others bound => ⟨.text value, others, rfl, .inr ⟨value, rfl, bound⟩⟩
  induction cs generalizing before with
  | nil =>
      -- Behind a backslash the quote is escaped, and the line ends in the text.
      rw [List.nil_append, lexemes_text_cons, if_pos rfl, lexemes_escape_cons]
      exact ⟨closed _ _ _ (Nat.le_add_right _ _), broken _ _⟩
  | cons c cs ih =>
      have longer : ∀ d : Char,
          (before ++ [d]).length + cs.length ≤ before.length + (c :: cs).length := fun d => by
        simp only [List.length_append, List.length_cons, List.length_nil]
        omega
      constructor
      · rw [List.cons_append, lexemes_text_cons]
        split_ifs
        · exact closed _ _ _ (Nat.le_add_right _ _)
        · exact (ih before).2.mono (Nat.add_le_add_left (Nat.le_succ _) _)
        · exact broken _ _
        · exact (ih (before ++ [c])).1.mono (longer c)
      · rw [List.cons_append, lexemes_escape_cons]
        cases unescape? c with
        | some d => exact (ih (before ++ [d])).1.mono (longer d)
        | none => exact broken _ _

/-- A text denotes just the characters between its quotes only if none of them is special. -/
theorem isPlain_of_lexemes_text (before : List Char) {cs rest : List Char} {others : List Lexeme}
    (denoted : alphabet.lexemes (.text '\'' before) fresh (cs ++ '\'' :: '\n' :: rest) =
      ⟨fresh, .text (before ++ cs)⟩ :: others) : ∀ c ∈ cs, isPlain c = true := by
  induction cs generalizing before with
  | nil => exact List.forall_mem_nil _
  | cons c cs ih =>
      rw [List.cons_append, lexemes_text_cons] at denoted
      split_ifs at denoted with quote backslash feed
      · simp at denoted
      · -- Behind a backslash, what is left denotes too few characters.
        obtain ⟨symbol, others, whole, broken | ⟨value, text, short⟩⟩ :=
          (alphabet.opensWithText fresh before cs rest).2
        · simp [whole, broken] at denoted
        · rw [whole, text, List.cons.injEq, Lexeme.mk.injEq, Symbol.text.injEq] at denoted
          obtain ⟨⟨-, same⟩, -⟩ := denoted
          rw [same, List.length_append, List.length_cons] at short
          omega
      · simp at denoted
      · have here : isPlain c = true := by simp_all [isPlain]
        refine List.forall_mem_cons.mpr ⟨here, ih (before ++ [c]) ?_⟩
        rwa [List.append_assoc, List.singleton_append]

end Alphabet
end Script
end DesignTokens
