import DesignTokens.Json.Basic
import DesignTokens.Proofs.Script.Numeral

/-!
# Reading object literals

An object literal is read one character at a time by a machine with a stack of the lists and objects
that are still open.  Blanks and line breaks between its parts do not count, and a comma may stand
behind the last part of a list or an object.  A text stands in single quotes; a word is as long as
it can be.  What a bare name is, which characters stand for themselves in quotes, and which words
denote scalars is left to a dialect.
-/

namespace DesignTokens
namespace Script

/-! ## Characters -/

/-- The characters that are blank or break a line. -/
def blanks : List Char :=
  ['\t', '\n', '\x0b', '\x0c', '\r', ' ', '\u00a0', '\u1680', '\u2000', '\u2001', '\u2002',
   '\u2003', '\u2004', '\u2005', '\u2006', '\u2007', '\u2008', '\u2009', '\u200a', '\u2028',
   '\u2029', '\u202f', '\u205f', '\u3000', '\ufeff']

/-- Whether a character is blank or breaks a line. -/
def isSpace (c : Char) : Bool := blanks.contains c

/-- Whether a character may stand in a word that denotes a scalar. -/
def isWordPart (c : Char) : Bool := Literal.isNamePart c || ['+', '-', '.'].contains c

/-- The character that an escape of one character denotes.  Escapes by number and escaped line
breaks are not read. -/
def unescape? : Char → Option Char
  | 'b' => some '\x08'
  | 'f' => some '\x0c'
  | 'n' => some '\n'
  | 'r' => some '\r'
  | 't' => some '\t'
  | 'v' => some '\x0b'
  | c => if c.isDigit || ['x', 'u', '\n', '\r', '\u2028', '\u2029'].contains c then none else some c

theorem isSpace_eq_false_of_isWordPart {c : Char} (part : isWordPart c = true) :
    isSpace c = false := by
  have apart : blanks.all (fun blank => !isWordPart blank) = true := rfl
  by_contra blank
  have member : c ∈ blanks := List.contains_iff_mem.mp (Bool.eq_true_of_not_eq_false blank)
  have absent := List.all_eq_true.mp apart c member
  rw [part] at absent
  exact Bool.false_ne_true absent

/-! ## The machine -/

/-- How names, texts and words are read. -/
structure Dialect where
  /-- Whether a character may stand in a bare name. -/
  isNamePart : Char → Bool
  /-- Whether a row of such characters is a name. -/
  isName : List Char → Bool
  /-- Whether a character may stand for itself in quotes. -/
  isRaw : Char → Bool
  /-- The scalar that a word denotes. -/
  word? : List Char → Option Scalar
  /-- The characters of identifiers and integers may stand in a name. -/
  isNamePart_of_literal : ∀ c, Literal.isNamePart c = true → isNamePart c = true
  /-- A colon ends a name. -/
  isNamePart_colon : isNamePart ':' = false

/-- A list or an object that is still open. -/
inductive Frame
  /-- A list with the items read so far. -/
  | list (items : List Json)
  /-- An object with the entries read so far, and the name whose value comes next. -/
  | object (entries : List (String × Json)) (name : String)

/-- What a text or a word is read for. -/
inductive Role
  /-- A value. -/
  | value
  /-- The next name of an object with these entries. -/
  | name (entries : List (String × Json))

/-- What has been read of the innermost part. -/
inductive Place
  /-- Nothing. -/
  | start (role : Role)
  /-- The characters of a text, but not its closing quote. -/
  | text (role : Role) (before : List Char)
  /-- The characters of a text, and a backslash. -/
  | escape (role : Role) (before : List Char)
  /-- Characters of a word. -/
  | word (role : Role) (before : List Char)
  /-- A name, but not its colon. -/
  | colon (entries : List (String × Json)) (name : String)
  /-- The whole value. -/
  | after (value : Json)

/-- Whether the machine is neither in a text nor in a word. -/
def Place.isBetween : Place → Bool
  | .start _ => true
  | .colon _ _ => true
  | .after _ => true
  | _ => false

namespace Role

/-- Where the machine stands behind a text. -/
def afterText (role : Role) (cs : List Char) : Place :=
  match role with
  | value => .after (.str (.ofList cs))
  | name entries => .colon entries (.ofList cs)

end Role

namespace Dialect

variable (dialect : Dialect)

/-- Whether a character may stand in a word. -/
def isPart : Role → Char → Bool
  | .value => isWordPart
  | .name _ => dialect.isNamePart

/-- Where the machine stands behind a word. -/
def afterWord? (role : Role) (cs : List Char) : Option Place :=
  match role with
  | .value => (dialect.word? cs).map fun scalar => .after (.scalar scalar)
  | .name entries => if dialect.isName cs then some (.colon entries (.ofList cs)) else none

/-- A character that begins a part of the object literal, or joins or ends its parts. -/
def mark (place : Place) (stack : List Frame) (c : Char) : Option (Place × List Frame) :=
  match place, stack, c with
  | .start role, stack, '\'' => some (.text role [], stack)
  | .start .value, stack, '{' => some (.start (.name []), stack)
  | .start .value, stack, '[' => some (.start .value, .list [] :: stack)
  | .start .value, .list items :: stack, ']' => some (.after (.list items), stack)
  | .start (.name entries), stack, '}' => some (.after (.object entries), stack)
  | .start role, stack, c => if dialect.isPart role c then some (.word role [c], stack) else none
  | .colon entries name, stack, ':' => some (.start .value, .object entries name :: stack)
  | .after value, .list items :: stack, ',' =>
      some (.start .value, .list (items ++ [value]) :: stack)
  | .after value, .list items :: stack, ']' => some (.after (.list (items ++ [value])), stack)
  | .after value, .object entries name :: stack, ',' =>
      some (.start (.name (entries ++ [(name, value)])), stack)
  | .after value, .object entries name :: stack, '}' =>
      some (.after (.object (entries ++ [(name, value)])), stack)
  | _, _, _ => none

/-- A character that belongs neither to a text nor to the word before it. -/
def turn (place : Place) (stack : List Frame) (c : Char) : Option (Place × List Frame) :=
  if isSpace c then some (place, stack) else dialect.mark place stack c

/-- Where the machine goes with a character. -/
def step (place : Place) (stack : List Frame) (c : Char) : Option (Place × List Frame) :=
  match place with
  | .text role before =>
      if c = '\'' then some (role.afterText before, stack)
      else if c = '\\' then some (.escape role before, stack)
      else if dialect.isRaw c then some (.text role (before ++ [c]), stack)
      else none
  | .escape role before => (unescape? c).map fun c => (.text role (before ++ [c]), stack)
  | .word role before =>
      -- the character behind a word ends it, and is taken where the word leads
      if dialect.isPart role c then some (.word role (before ++ [c]), stack)
      else (dialect.afterWord? role before).bind fun place => dialect.turn place stack c
  | place => dialect.turn place stack c

/-- Run the machine over a text until nothing is open.  The result is the value that has been read,
and the rest of the text. -/
def run : Place → List Frame → List Char → Option (Json × List Char)
  | .after value, [], rest => some (value, rest)
  | _, _, [] => none
  | place, stack, c :: rest =>
      (dialect.step place stack c).bind fun (place, stack) => run place stack rest

/-- The object that a text begins with, and the rest of the text. -/
def object? : List Char → Option (Json × List Char)
  | '{' :: rest => dialect.run (.start (.name [])) [] rest
  | _ => none

end Dialect

/-! ## The standard dialect -/

/-- The scalar that a word denotes: a truth value or a number. -/
def word? (cs : List Char) : Option Scalar :=
  if cs = ['t', 'r', 'u', 'e'] then some (.bool true)
  else if cs = ['f', 'a', 'l', 's', 'e'] then some (.bool false)
  else number? cs

theorem word?_of_number? {cs : List Char} {leaf : Scalar} (denoted : number? cs = some leaf) :
    word? cs = some leaf := by
  have other : ∀ name, number? name = none → cs ≠ name := by
    rintro name none rfl
    exact Option.some_ne_none leaf (denoted.symm.trans none)
  rw [word?, if_neg (other _ rfl), if_neg (other _ rfl), denoted]

/-- The dialect of the language itself.  A bare name is an identifier or a whole number, and a text
contains no line feed and no carriage return. -/
def standard : Dialect where
  isNamePart := Literal.isNamePart
  isName cs := Literal.isIdentifier cs || Literal.isInteger cs
  isRaw c := c != '\n' && c != '\r'
  word? := word?
  isNamePart_of_literal _ part := part
  isNamePart_colon := rfl

/-- The object that a text denotes, with nothing but blanks around it. -/
def read (cs : List Char) : Option Json :=
  (standard.object? (cs.dropWhile isSpace)).bind fun (value, rest) =>
    if rest.all isSpace then some value else none

namespace Dialect

/-! ## Runs -/

variable {dialect : Dialect} {stack : List Frame} {rest : List Char}

/-- Whether the machine goes on: something is open, or no value is complete. -/
def IsOpen (place : Place) (stack : List Frame) : Prop :=
  stack ≠ [] ∨ ∀ value, place ≠ .after value

theorem isOpen_start (role : Role) (stack : List Frame) : IsOpen (.start role) stack :=
  .inr fun _ => nofun

theorem isOpen_text (role : Role) (before : List Char) (stack : List Frame) :
    IsOpen (.text role before) stack :=
  .inr fun _ => nofun

theorem isOpen_escape (role : Role) (before : List Char) (stack : List Frame) :
    IsOpen (.escape role before) stack :=
  .inr fun _ => nofun

theorem isOpen_word (role : Role) (before : List Char) (stack : List Frame) :
    IsOpen (.word role before) stack :=
  .inr fun _ => nofun

theorem isOpen_colon (entries : List (String × Json)) (name : String) (stack : List Frame) :
    IsOpen (.colon entries name) stack :=
  .inr fun _ => nofun

theorem isOpen_cons (place : Place) (frame : Frame) (stack : List Frame) :
    IsOpen place (frame :: stack) :=
  .inl (List.cons_ne_nil frame stack)

theorem run_after (value : Json) (rest : List Char) :
    dialect.run (.after value) [] rest = some (value, rest) := by
  cases rest <;> rfl

theorem run_cons {place : Place} (isOpen : IsOpen place stack) (c : Char)
    (rest : List Char) :
    dialect.run place stack (c :: rest) =
      (dialect.step place stack c).bind fun next => dialect.run next.1 next.2 rest := by
  rw [run]
  rintro value rfl rfl
  exact isOpen.elim (fun frames => frames rfl) fun other => other value rfl

/-! ### Blanks -/

theorem step_of_isBetween {place : Place} (between : place.isBetween = true) (stack : List Frame)
    (c : Char) : dialect.step place stack c = dialect.turn place stack c := by
  cases place <;> first | rfl | cases between

theorem run_blank {place : Place} (between : place.isBetween = true)
    (isOpen : IsOpen place stack) {c : Char} (blank : isSpace c = true) :
    dialect.run place stack (c :: rest) = dialect.run place stack rest := by
  rw [run_cons isOpen, step_of_isBetween between, turn, if_pos blank, Option.bind_some]

theorem run_blanks {place : Place} (between : place.isBetween = true)
    (isOpen : IsOpen place stack) {blanks : List Char}
    (blank : ∀ c ∈ blanks, isSpace c = true) :
    dialect.run place stack (blanks ++ rest) = dialect.run place stack rest := by
  induction blanks with
  | nil => rfl
  | cons c blanks ih =>
      obtain ⟨here, others⟩ := List.forall_mem_cons.mp blank
      rw [List.cons_append, run_blank between isOpen here, ih others]

/-! ### Texts -/

/-- Whether a character of a text is read back from its writing in quotes. -/
def isText (dialect : Dialect) (c : Char) : Bool :=
  dialect.isRaw c || ['\\', '\'', '\n'].contains c

theorem run_escape (role : Role) (before : List Char) (c : Char) :
    dialect.run (.text role before) stack (Literal.escape c ++ rest) =
      if dialect.isText c then dialect.run (.text role (before ++ [c])) stack rest else none := by
  have escaped : ∀ c mark, dialect.isText c = true → unescape? mark = some c →
      dialect.run (.text role before) stack ('\\' :: mark :: rest) =
        if dialect.isText c then dialect.run (.text role (before ++ [c])) stack rest else none := by
    intro c mark text denoted
    have opened : dialect.step (.text role before) stack '\\' =
      some (.escape role before, stack) := rfl
    rw [run_cons (isOpen_text role before stack), opened, Option.bind_some,
      run_cons (isOpen_escape role before stack), step, denoted, if_pos text]
    rfl
  by_cases backslash : c = '\\'
  · subst backslash
    exact escaped '\\' '\\' (by simp [isText]) rfl
  by_cases quote : c = '\''
  · subst quote
    exact escaped '\'' '\'' (by simp [isText]) rfl
  by_cases feed : c = '\n'
  · subst feed
    exact escaped '\n' 'n' (by simp [isText]) rfl
  have plain : Literal.escape c = [c] := by simp [Literal.escape, backslash, quote, feed]
  have text : dialect.isText c = dialect.isRaw c := by simp [isText, backslash, quote, feed]
  rw [plain, List.singleton_append, run_cons (isOpen_text role before stack), step, if_neg quote,
    if_neg backslash, text]
  split <;> rfl

theorem run_text (role : Role) (before cs : List Char) :
    dialect.run (.text role before) stack (cs.flatMap Literal.escape ++ '\'' :: rest) =
      if cs.all dialect.isText then dialect.run (role.afterText (before ++ cs)) stack rest
      else none := by
  induction cs generalizing before with
  | nil =>
      rw [List.flatMap_nil, List.nil_append, run_cons (isOpen_text role before stack)]
      simp [step]
  | cons c cs ih =>
      rw [List.flatMap_cons, List.append_assoc, run_escape, List.all_cons]
      cases dialect.isText c with
      | false => rfl
      | true => simp [ih]

/-! ### Words -/

theorem run_word (role : Role) (before : List Char) {cs : List Char}
    (parts : ∀ c ∈ cs, dialect.isPart role c = true) :
    dialect.run (.word role before) stack (cs ++ rest) =
      dialect.run (.word role (before ++ cs)) stack rest := by
  induction cs generalizing before with
  | nil => rw [List.nil_append, List.append_nil]
  | cons c cs ih =>
      obtain ⟨here, others⟩ := List.forall_mem_cons.mp parts
      have stepped : dialect.step (.word role before) stack c =
          some (.word role (before ++ [c]), stack) := if_pos here
      rw [List.cons_append, run_cons (isOpen_word role before stack), stepped, Option.bind_some,
        ih _ others, List.append_assoc]
      rfl

theorem run_start_word (role : Role) {c : Char} (wordPart : isWordPart c = true)
    (part : dialect.isPart role c = true) :
    dialect.run (.start role) stack (c :: rest) = dialect.run (.word role [c]) stack rest := by
  have other : ∀ mark, isWordPart mark = false → c ≠ mark := by
    rintro mark none rfl
    exact Bool.false_ne_true (none.symm.trans wordPart)
  have turned : dialect.turn (.start role) stack c = some (.word role [c], stack) := by
    rw [turn, if_neg (by simp [isSpace_eq_false_of_isWordPart wordPart])]
    simp [mark, part, other '\'' rfl, other '{' rfl, other '}' rfl, other '[' rfl, other ']' rfl]
  rw [run_cons (isOpen_start role stack), step_of_isBetween rfl, turned, Option.bind_some]

theorem isBetween_of_afterWord? {role : Role} {before : List Char} {place : Place}
    (complete : dialect.afterWord? role before = some place) : place.isBetween = true := by
  cases role with
  | value =>
      obtain ⟨scalar, -, rfl⟩ := Option.map_eq_some_iff.mp complete
      rfl
  | name entries =>
      obtain ⟨-, same⟩ := Option.ite_none_right_eq_some.mp complete
      obtain rfl := Option.some.inj same
      rfl

theorem run_word_end (role : Role) (before : List Char) {c : Char}
    (ends : dialect.isPart role c = false)
    (isOpen : ∀ place, dialect.afterWord? role before = some place → IsOpen place stack) :
    dialect.run (.word role before) stack (c :: rest) =
      (dialect.afterWord? role before).bind fun place => dialect.run place stack (c :: rest) := by
  rw [run_cons (isOpen_word role before stack)]
  have stepped : dialect.step (.word role before) stack c =
      (dialect.afterWord? role before).bind fun place => dialect.turn place stack c :=
    if_neg (by simp [ends])
  rw [stepped, Option.bind_assoc]
  refine Option.bind_congr fun place complete => ?_
  have between : place.isBetween = true := isBetween_of_afterWord? complete
  rw [run_cons (isOpen place complete), step_of_isBetween between]

/-- A word of one character or more, up to a character that does not belong to it. -/
theorem run_start_whole_word (role : Role) {word : List Char} (nonempty : word ≠ [])
    (first : ∀ c ∈ word.head?, isWordPart c = true)
    (parts : ∀ c ∈ word, dialect.isPart role c = true) {c : Char}
    (ends : dialect.isPart role c = false)
    (isOpen : ∀ place, dialect.afterWord? role word = some place → IsOpen place stack) :
    dialect.run (.start role) stack (word ++ c :: rest) =
      (dialect.afterWord? role word).bind fun place => dialect.run place stack (c :: rest) := by
  obtain ⟨begins, others, rfl⟩ := List.exists_cons_of_ne_nil nonempty
  obtain ⟨here, inside⟩ := List.forall_mem_cons.mp parts
  rw [List.cons_append, run_start_word role (first begins rfl) here, run_word role _ inside,
    List.singleton_append, run_word_end role _ ends isOpen]

end Dialect
end Script
end DesignTokens
