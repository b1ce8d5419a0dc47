import DesignTokens.Proofs.Script.Lexeme

/-!
# Prologues

A module begins with comments and import declarations, and goes on with the declaration of a
constant.  An import declaration is read one lexeme at a time; it ends with a semicolon or where a
line has ended.  Every name that is declared must be an identifier that is not reserved, and no name
may be declared twice.  Names in quotes and attributes of imports are not read.
-/

namespace DesignTokens
namespace Script

/-! ## Declarations -/

/-- A name that an import declaration binds. -/
structure Binding where
  /-- The exported name that it stands for; without one it stands for the whole module. -/
  exported : Option (List Char)
  /-- The name. -/
  name : List Char
  deriving DecidableEq

/-- The binding of the default export. -/
def Binding.ofDefault (name : List Char) : Binding := ⟨some "default".toList, name⟩

/-- An import declaration. -/
structure Import where
  /-- The names that it binds. -/
  bindings : List Binding
  /-- The module. -/
  source : List Char
  deriving DecidableEq

/-- The beginning of a module. -/
structure Prologue where
  /-- The comments in front. -/
  comments : List (List Char)
  /-- The import declarations. -/
  imports : List Import
  /-- The name of the constant behind them. -/
  constant : List Char
  deriving DecidableEq

/-- The names that an import declaration binds. -/
def Import.names (declared : Import) : List (List Char) := declared.bindings.map Binding.name

/-- The names that a module declares in its prologue. -/
def Prologue.names (prologue : Prologue) : List (List Char) :=
  prologue.imports.flatMap Import.names ++ [prologue.constant]

/-! ## Names -/

/-- The words that no module can declare. -/
def reserved : List String :=
  ["arguments", "await", "break", "case", "catch", "class", "const", "continue", "debugger",
   "default", "delete", "do", "else", "enum", "eval", "export", "extends", "false", "finally",
   "for", "function", "if", "implements", "import", "in", "instanceof", "interface", "let", "new",
   "null", "package", "private", "protected", "public", "return", "static", "super", "switch",
   "this", "throw", "true", "try", "typeof", "var", "void", "while", "with", "yield"]

namespace Alphabet

variable (alphabet : Alphabet)

/-- Whether a text is an identifier that can be declared. -/
def isBinding (cs : List Char) : Bool :=
  match cs with
  | [] => false
  | c :: rest =>
      alphabet.isStart c && rest.all alphabet.isPart && !(reserved.map String.toList).contains cs

/-- Whether some names can be declared together. -/
def declares (names : List (List Char)) : Bool := names.all alphabet.isBinding && names.Nodup

variable {alphabet}

theorem isWord_of_isBinding {cs : List Char} (binding : alphabet.isBinding cs = true) :
    cs ≠ [] ∧ ∀ c ∈ cs, alphabet.isPart c = true := by
  cases cs with
  | nil => exact absurd binding nofun
  | cons c rest =>
      simp only [isBinding, Bool.and_eq_true, List.all_eq_true] at binding
      exact ⟨List.cons_ne_nil c rest,
        List.forall_mem_cons.mpr ⟨alphabet.isPart_of_isStart c binding.1.1, binding.1.2⟩⟩

theorem lexemes_name {name : List Char} (named : alphabet.isBinding name = true)
    (rest : List Char) : alphabet.lexemes .between false (name ++ ' ' :: rest) =
      ⟨false, .word name⟩ :: alphabet.lexemes .between false rest := by
  obtain ⟨nonempty, parts⟩ := isWord_of_isBinding named
  rw [lexemes_word nonempty parts isPart_blank, lexemes_blank]

/-- An identifier of ASCII that is not reserved can be declared in every alphabet. -/
theorem isBinding_of_ascii {cs : List Char} (ascii : cs.all (·.toNat < 128) = true)
    (binding : Alphabet.ascii.isBinding cs = true) : alphabet.isBinding cs = true := by
  cases cs with
  | nil => exact absurd binding nofun
  | cons c rest =>
      simp only [List.all_cons, Bool.and_eq_true, decide_eq_true_eq, List.all_eq_true] at ascii
      have parts : rest.all alphabet.isPart = rest.all Literal.isNamePart := by
        rw [Bool.eq_iff_iff, List.all_eq_true, List.all_eq_true]
        exact forall₂_congr fun c member => by rw [alphabet.isPart_ascii c (ascii.2 c member)]
      rw [isBinding, alphabet.isStart_ascii c ascii.1, parts]
      exact binding

end Alphabet

/-! ## Reading -/

/-- What has been read of an import declaration behind its keyword. -/
inductive Clause
  /-- Nothing. -/
  | opened
  /-- A name for the default export. -/
  | default (bindings : List Binding)
  /-- The same, and a comma. -/
  | more (bindings : List Binding)
  /-- A star. -/
  | star (bindings : List Binding)
  /-- A star, and the word before its name. -/
  | starAs (bindings : List Binding)
  /-- A brace, and bindings with a comma behind each. -/
  | braces (bindings : List Binding)
  /-- The same, and an exported name. -/
  | exported (bindings : List Binding) (name : List Char)
  /-- The same, and the word before another name for it. -/
  | exportedAs (bindings : List Binding) (name : List Char)
  /-- A brace, and bindings with a comma between each and the next. -/
  | bound (bindings : List Binding)
  /-- All bindings. -/
  | complete (bindings : List Binding)
  /-- All bindings, and the word before the module. -/
  | origin (bindings : List Binding)

/-- What a symbol makes of an import declaration. -/
inductive Reading
  /-- There is more to read. -/
  | more (clause : Clause)
  /-- It is complete. -/
  | declared (declared : Import)
  /-- It is none. -/
  | failed

/-- Where a word leads that must be the given one. -/
def Reading.ofWord (word expected : List Char) (clause : Clause) : Reading :=
  if word = expected then .more clause else .failed

/-- Read a symbol of an import declaration. -/
def Clause.read : Clause → Symbol → Reading
  | .opened, .text source => .declared ⟨[], source⟩
  | .opened, .word name => .more (.default [.ofDefault name])
  | .opened, .mark '{' => .more (.braces [])
  | .opened, .mark '*' => .more (.star [])
  | .default bindings, .mark ',' => .more (.more bindings)
  | .default bindings, .word word => .ofWord word "from".toList (.origin bindings)
  | .more bindings, .mark '{' => .more (.braces bindings)
  | .more bindings, .mark '*' => .more (.star bindings)
  | .star bindings, .word word => .ofWord word "as".toList (.starAs bindings)
  | .starAs bindings, .word name => .more (.complete (bindings ++ [⟨none, name⟩]))
  | .braces bindings, .mark '}' => .more (.complete bindings)
  | .braces bindings, .word name => .more (.exported bindings name)
  | .exported bindings name, .mark ',' => .more (.braces (bindings ++ [⟨some name, name⟩]))
  | .exported bindings name, .mark '}' => .more (.complete (bindings ++ [⟨some name, name⟩]))
  | .exported bindings name, .word word => .ofWord word "as".toList (.exportedAs bindings name)
  | .exportedAs bindings name, .word other => .more (.bound (bindings ++ [⟨some name, other⟩]))
  | .bound bindings, .mark ',' => .more (.braces bindings)
  | .bound bindings, .mark '}' => .more (.complete bindings)
  | .complete bindings, .word word => .ofWord word "from".toList (.origin bindings)
  | .origin bindings, .text source => .declared ⟨bindings, source⟩
  | _, _ => .failed

/-- What has been read behind the last import declaration. -/
inductive Stage
  /-- Nothing, or a semicolon. -/
  | between (closed : Bool)
  /-- A part of the next import declaration. -/
  | within (clause : Clause)

/-- The import declarations that some lexemes begin with, and the other lexemes. -/
def imports? : Stage → List Lexeme → Option (List Import × List Lexeme)
  | .between _, [] => some ([], [])
  | .within _, [] => none
  | .between closed, lexeme :: rest =>
      if lexeme.symbol = .mark ';' then imports? (.between true) rest
      else if !(lexeme.fresh || closed) then none
      else if lexeme.symbol = .word "import".toList then imports? (.within .opened) rest
      else some ([], lexeme :: rest)
  | .within clause, lexeme :: rest =>
      match clause.read lexeme.symbol with
      | .more clause => imports? (.within clause) rest
      | .declared declared =>
          (imports? (.between false) rest).map fun others => (declared :: others.1, others.2)
      | .failed => none

/-- The name of the constant that some lexemes declare. -/
def constant? : List Lexeme → Option (List Char)
  | ⟨_, .word keyword⟩ :: ⟨_, .word name⟩ :: ⟨_, .mark '='⟩ :: _ =>
      if keyword = "const".toList then some name else none
  | _ => none

/-- The comments that some lexemes begin with. -/
def comments : List Lexeme → List (List Char)
  | ⟨_, .comment cs⟩ :: rest => cs :: comments rest
  | _ => []

/-- Whether a lexeme is no comment. -/
def Lexeme.isCode : Lexeme → Bool
  | ⟨_, .comment _⟩ => false
  | _ => true

namespace Alphabet

variable (alphabet : Alphabet)

/-- The lexemes of a script that are no comments, at the beginning of a line. -/
def code (cs : List Char) : List Lexeme := (alphabet.lexemes .between true cs).filter Lexeme.isCode

/-- The prologue of a module. -/
def prologue? (cs : List Char) : Option Prologue :=
  (imports? (.between true) (alphabet.code cs)).bind fun (imports, rest) =>
    (constant? rest).bind fun constant =>
      let prologue : Prologue :=
        ⟨comments (alphabet.lexemes .between true cs), imports, constant⟩
      if alphabet.declares prologue.names then some prologue else none

variable {alphabet} {fresh : Bool} {rest : List Char}

/-! ## Reading declarations -/

theorem imports?_text_eq_some_iff {bindings : List Binding} {value source : List Char}
    {lexemes remaining : List Lexeme} {others : List Import} :
    imports? (.within (.origin bindings)) (⟨fresh, .text value⟩ :: lexemes) =
        some (⟨bindings, source⟩ :: others, remaining) ↔
      value = source ∧ imports? (.between false) lexemes = some (others, remaining) := by
  have read : imports? (.within (.origin bindings)) (⟨fresh, .text value⟩ :: lexemes) =
      (imports? (.between false) lexemes).map fun others =>
        (⟨bindings, value⟩ :: others.1, others.2) := rfl
  rw [read]
  cases imports? (.between false) lexemes with
  | none => simp
  | some found => simp [Prod.ext_iff, and_assoc]

/-- Behind all bindings of an import declaration, a module in single quotes is read as it is written
exactly if it has no special characters. -/
theorem imports?_source_eq_some_iff {bindings : List Binding} {source : List Char}
    {others : List Import} {remaining : List Lexeme} :
    imports? (.within (.origin bindings))
        ((alphabet.lexemes (.text '\'' []) fresh (source ++ '\'' :: '\n' :: rest)).filter
          Lexeme.isCode) = some (⟨bindings, source⟩ :: others, remaining) ↔
      (∀ c ∈ source, isPlain c = true) ∧
        imports? (.between false) (alphabet.code rest) = some (others, remaining) := by
  have whole (plain : ∀ c ∈ source, isPlain c = true) :
      (alphabet.lexemes (.text '\'' []) fresh (source ++ '\'' :: '\n' :: rest)).filter
        Lexeme.isCode = ⟨fresh, .text source⟩ :: alphabet.code rest := by
    rw [lexemes_text [] plain]
    rfl
  constructor
  · intro read
    have plain : ∀ c ∈ source, isPlain c = true := by
      obtain ⟨symbol, tail, split, broken | ⟨value, text, -⟩⟩ :=
        (alphabet.opensWithText fresh [] source rest).1
      · rw [split, broken] at read
        exact absurd read nofun
      · rw [split, text] at read
        obtain ⟨rfl, -⟩ := imports?_text_eq_some_iff.mp read
        exact isPlain_of_lexemes_text [] (text ▸ split)
    rw [whole plain, imports?_text_eq_some_iff] at read
    exact ⟨plain, read.2⟩
  · rintro ⟨plain, read⟩
    rw [whole plain, imports?_text_eq_some_iff]
    exact ⟨rfl, read⟩

/-! ## Reading prologues -/

theorem prologue?_eq_some_iff {cs : List Char} {prologue : Prologue} :
    alphabet.prologue? cs = some prologue ↔
      comments (alphabet.lexemes .between true cs) = prologue.comments ∧
      (∃ remaining, imports? (.between true) (alphabet.code cs) =
          some (prologue.imports, remaining) ∧ constant? remaining = some prologue.constant) ∧
      alphabet.declares prologue.names = true := by
  obtain ⟨commented, imports, constant⟩ := prologue
  simp only [prologue?, Option.bind_eq_some_iff, Prod.exists, Option.ite_none_right_eq_some,
    Option.some.injEq, Prologue.mk.injEq]
  constructor
  · rintro ⟨imports, remaining, read, constant, named, declares, rfl, rfl, rfl⟩
    exact ⟨rfl, ⟨remaining, read, named⟩, declares⟩
  · rintro ⟨rfl, ⟨remaining, read, named⟩, declares⟩
    exact ⟨imports, remaining, read, constant, named, declares, rfl, rfl, rfl⟩

/-- A quote ends the name of a module, and what is behind it in the line is read as well. -/
example : ascii.prologue? "import a from 'b';import * as c from 'd'\nconst e =".toList =
    some ⟨[], [⟨[.ofDefault ['a']], ['b']⟩, ⟨[⟨none, ['c']⟩], ['d']⟩], ['e']⟩ := by
  decide +kernel

end Alphabet
end Script
end DesignTokens
