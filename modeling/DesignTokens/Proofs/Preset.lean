import DesignTokens.Preset
import DesignTokens.Proofs.Script.Prologue

/-!
# Reading preset modules

A preset module is read as a module that imports what the settings name, each name from its own
module and in order, exactly if the settings are tame: their names can be declared together, and no
module or document has a character in its name that ends the text or the comment that it is in.
-/

namespace DesignTokens

namespace Literal

theorem separated_append_lineFeed {lines : List (List Char)} (nonempty : lines ≠ []) :
    separated ['\n'] lines ++ ['\n'] = lines.flatMap (· ++ ['\n']) := by
  induction lines with
  | nil => exact absurd rfl nonempty
  | cons line lines ih =>
      cases lines with
      | nil => simp [separated]
      | cons next lines =>
          have first : separated ['\n'] (line :: next :: lines) =
              line ++ ['\n'] ++ separated ['\n'] (next :: lines) := by
            simp [separated, List.intercalate]
          rw [first, List.append_assoc, ih (List.cons_ne_nil next lines)]
          rfl

end Literal

namespace Preset

open Script Alphabet

variable {alphabet : Alphabet} {settings : Settings} {sourceName : String} {rest : List Char}

/-! ## The prologue -/

/-- The import of the default export of a module. -/
def defaultImport (name source : String) : Import := ⟨[.ofDefault name.toList], source.toList⟩

/-- The names of the presets and their modules. -/
def presets (settings : Settings) : Fields String :=
  (settings.basePreset, settings.basePresetModule) :: settings.componentImports

/-- The notice in front of a module. -/
def notice : List Char := " Do not edit by hand: regenerate with \x60tokenpress convert\x60.".toList

/-- The prologue that settings ask for. -/
def prologue (settings : Settings) (sourceName : String) : Prologue where
  comments := [" Generated from ".toList ++ sourceName.toList, notice]
  imports := ⟨[⟨some "definePreset".toList, "definePreset".toList⟩],
      settings.presetPackage.toList⟩ ::
    (presets settings).map fun entry => defaultImport entry.1 entry.2
  constant := "Default".toList

/-- The names in a module for some settings can be declared together, and no module or document has
a character in its name that ends the text or the comment that it is in. -/
structure Tame (alphabet : Alphabet) (settings : Settings) (sourceName : String) : Prop where
  line : ∀ c ∈ sourceName.toList, isTerminator c = false
  texts : ∀ source ∈ settings.presetPackage :: Fields.values (presets settings),
    ∀ c ∈ source.toList, isPlain c = true
  names : ∀ name ∈ Fields.keys (presets settings), alphabet.isBinding name.toList = true
  distinct : ("definePreset" :: Fields.keys (presets settings) ++ ["Default"]).Nodup

/-! ## Import lines -/

theorem importLine_append (binding source : List Char) :
    importLine binding source ++ '\n' :: rest =
      "import".toList ++ ' ' :: (binding ++ ' ' ::
        ("from".toList ++ ' ' :: '\'' :: (source ++ '\'' :: '\n' :: rest))) := by
  have opening : "import ".toList = "import".toList ++ [' '] := by decide
  have joint : " from '".toList = ' ' :: ("from".toList ++ [' ', '\'']) := by decide
  unfold importLine
  rw [opening, joint]
  simp only [List.append_assoc, List.cons_append, List.nil_append]

/-- The lexemes of an import line, up to its module. -/
theorem lexemes_importLine {binding source : List Char} {bound : List Lexeme}
    (split : ∀ rest, alphabet.lexemes .between false (binding ++ ' ' :: rest) =
      bound ++ alphabet.lexemes .between false rest) :
    alphabet.lexemes .between true (importLine binding source ++ '\n' :: rest) =
      ⟨true, .word "import".toList⟩ :: (bound ++ ⟨false, .word "from".toList⟩ ::
        alphabet.lexemes (.text '\'' []) false (source ++ '\'' :: '\n' :: rest)) := by
  rw [importLine_append, lexemes_ascii_word (by decide) isPart_blank, lexemes_blank, split,
    lexemes_ascii_word (by decide) isPart_blank, lexemes_blank, lexemes_quote]

/-- The lexemes of the binding in braces. -/
def braced : List Lexeme :=
  [⟨false, .mark '{'⟩, ⟨false, .word "definePreset".toList⟩, ⟨false, .mark '}'⟩]

theorem lexemes_definePreset (rest : List Char) :
    alphabet.lexemes .between false ("\x7b definePreset \x7d".toList ++ ' ' :: rest) =
      braced ++ alphabet.lexemes .between false rest := by
  have layout : "\x7b definePreset \x7d".toList =
    '{' :: ' ' :: ("definePreset".toList ++ [' ', '}']) := by decide
  rw [layout, List.cons_append, List.cons_append, List.append_assoc,
    lexemes_mark (by decide) rfl (by decide), lexemes_blank, List.cons_append,
    lexemes_ascii_word (by decide) isPart_blank, lexemes_blank, List.cons_append,
    lexemes_mark (by decide) rfl (by decide), List.nil_append, lexemes_blank]
  rfl

/-- An import line is read as an import declaration of what it binds, and of the module as it is
written, exactly if the module has no special characters. -/
theorem imports?_importLine_eq_some_iff {binding source : List Char} {bound : List Lexeme}
    {bindings : List Binding} {others : List Import} {remaining : List Lexeme} {closed : Bool}
    (split : ∀ rest, alphabet.lexemes .between false (binding ++ ' ' :: rest) =
      bound ++ alphabet.lexemes .between false rest)
    (code : ∀ lexeme ∈ bound, lexeme.isCode = true)
    (leads : ∀ lexemes,
      imports? (.within .opened) (bound ++ ⟨false, .word "from".toList⟩ :: lexemes) =
        imports? (.within (.origin bindings)) lexemes) :
    imports? (.between closed) (alphabet.code (importLine binding source ++ '\n' :: rest)) =
        some (⟨bindings, source⟩ :: others, remaining) ↔
      (∀ c ∈ source, isPlain c = true) ∧
        imports? (.between false) (alphabet.code rest) = some (others, remaining) := by
  have read : imports? (.between closed)
      (alphabet.code (importLine binding source ++ '\n' :: rest)) =
      imports? (.within .opened) (bound ++ ⟨false, .word "from".toList⟩ ::
        (alphabet.lexemes (.text '\'' []) false (source ++ '\'' :: '\n' :: rest)).filter
          Lexeme.isCode) := by
    rw [Alphabet.code, lexemes_importLine split, List.filter_cons_of_pos rfl, List.filter_append,
      List.filter_eq_self.mpr code, List.filter_cons_of_pos rfl]
    rfl
  rw [read, leads, imports?_source_eq_some_iff]

theorem imports?_defaultLine_eq_some_iff {name source : String} {others : List Import}
    {remaining : List Lexeme} {closed : Bool} (named : alphabet.isBinding name.toList = true) :
    imports? (.between closed)
        (alphabet.code (importLine name.toList source.toList ++ '\n' :: rest)) =
        some (defaultImport name source :: others, remaining) ↔
      (∀ c ∈ source.toList, isPlain c = true) ∧
        imports? (.between false) (alphabet.code rest) = some (others, remaining) := by
  have split : ∀ rest, alphabet.lexemes .between false (name.toList ++ ' ' :: rest) =
      [⟨false, .word name.toList⟩] ++ alphabet.lexemes .between false rest := lexemes_name named
  exact imports?_importLine_eq_some_iff split (by simp [Lexeme.isCode]) fun _ => rfl

theorem imports?_definePresetLine_eq_some_iff {source : String} {others : List Import}
    {remaining : List Lexeme} {closed : Bool} :
    imports? (.between closed) (alphabet.code
        (importLine "\x7b definePreset \x7d".toList source.toList ++ '\n' :: rest)) =
        some (⟨[⟨some "definePreset".toList, "definePreset".toList⟩], source.toList⟩ :: others,
          remaining) ↔
      (∀ c ∈ source.toList, isPlain c = true) ∧
        imports? (.between false) (alphabet.code rest) = some (others, remaining) :=
  imports?_importLine_eq_some_iff lexemes_definePreset (by decide) fun _ => rfl

/-- Import lines of default exports, each with a line feed behind it. -/
def defaultLines (entries : Fields String) : List Char :=
  entries.flatMap fun entry => importLine entry.1.toList entry.2.toList ++ ['\n']

theorem imports?_defaultLines_eq_some_iff {entries : Fields String} {remaining : List Lexeme}
    (named : ∀ name ∈ Fields.keys entries, alphabet.isBinding name.toList = true) :
    imports? (.between false) (alphabet.code (defaultLines entries ++ rest)) =
        some (entries.map fun entry => defaultImport entry.1 entry.2, remaining) ↔
      (∀ source ∈ Fields.values entries, ∀ c ∈ source.toList, isPlain c = true) ∧
        imports? (.between false) (alphabet.code rest) = some ([], remaining) := by
  induction entries with
  | nil => simp [defaultLines, Fields.values]
  | cons entry entries ih =>
      obtain ⟨here, others⟩ := List.forall_mem_cons.mp named
      have layout : defaultLines (entry :: entries) ++ rest =
          importLine entry.1.toList entry.2.toList ++ '\n' :: (defaultLines entries ++ rest) := by
        simp only [defaultLines, List.flatMap_cons, List.append_assoc, List.cons_append,
          List.nil_append]
      rw [layout, List.map_cons, imports?_defaultLine_eq_some_iff here, ih others, ← and_assoc]
      simp only [Fields.values, List.map_cons, List.forall_mem_cons]

/-- Behind the import declarations, the constant of the definition is declared. -/
theorem exists_imports?_definition (settings : Settings) (theme : Theme) :
    ∃ lexemes, imports? (.between false) (alphabet.code ('\n' :: definition settings theme)) =
      some ([], ⟨true, .word "const".toList⟩ :: ⟨false, .word "Default".toList⟩ ::
        ⟨false, .mark '='⟩ :: lexemes) := by
  obtain ⟨tail, layout⟩ : ∃ tail, definition settings theme =
      "const".toList ++ ' ' :: ("Default".toList ++ ' ' :: '=' :: tail) := by
    have opening : "const Default = definePreset(".toList =
        "const".toList ++ ' ' :: ("Default".toList ++ ' ' :: '=' :: " definePreset(".toList) := by
      decide
    unfold definition
    rw [opening]
    simp only [List.append_assoc, List.cons_append]
    exact ⟨_, rfl⟩
  have split : alphabet.lexemes .between true ('\n' :: definition settings theme) =
      ⟨true, .word "const".toList⟩ :: ⟨false, .word "Default".toList⟩ :: ⟨false, .mark '='⟩ ::
        alphabet.lexemes .between false tail := by
    rw [lexemes_lineFeed, layout, lexemes_ascii_word (by decide) isPart_blank, lexemes_blank,
      lexemes_ascii_word (by decide) isPart_blank, lexemes_blank,
      lexemes_mark (by decide) rfl (by decide)]
  refine ⟨(alphabet.lexemes .between false tail).filter Lexeme.isCode, ?_⟩
  rw [Alphabet.code, split]
  rfl

/-! ## Modules -/

/-- A module behind its comments. -/
def body (settings : Settings) (theme : Theme) : List Char :=
  '\n' :: (importLine "\x7b definePreset \x7d".toList settings.presetPackage.toList ++
    '\n' :: (defaultLines (presets settings) ++ '\n' :: definition settings theme))

theorem generated_eq :
    "// Generated from ".toList = '/' :: '/' :: " Generated from ".toList := by decide

theorem noticeLine_eq :
    "// Do not edit by hand: regenerate with \x60tokenpress convert\x60.\n".toList =
      '/' :: '/' :: (notice ++ ['\n']) := by decide

theorem toList_text (settings : Settings) (theme : Theme) (sourceName : String) :
    (text settings theme sourceName).toList =
      '/' :: '/' :: (" Generated from ".toList ++ sourceName.toList ++
        '\n' :: '/' :: '/' :: (notice ++ '\n' :: body settings theme)) := by
  have lines : Literal.separated ['\n'] (importLines settings) ++ ['\n'] =
      importLine "\x7b definePreset \x7d".toList settings.presetPackage.toList ++
        '\n' :: defaultLines (presets settings) := by
    rw [importLines, Literal.separated_append_lineFeed (List.cons_ne_nil _ _)]
    simp only [defaultLines, presets, List.flatMap_cons, List.flatMap_map, List.append_assoc,
      List.singleton_append]
  have layout : moduleChars settings theme sourceName = header sourceName ++ '\n' ::
      (Literal.separated ['\n'] (importLines settings) ++ ['\n'] ++
        '\n' :: definition settings theme) := by
    simp [moduleChars]
  rw [text, String.toList_ofList, layout, lines]
  unfold header
  rw [generated_eq, noticeLine_eq]
  simp only [body, List.append_assoc, List.cons_append, List.nil_append]

/-- The lexemes of a module that names its document in one line. -/
theorem lexemes_module (line : ∀ c ∈ sourceName.toList, isTerminator c = false) (theme : Theme) :
    alphabet.lexemes .between true (text settings theme sourceName).toList =
      ⟨true, .comment (" Generated from ".toList ++ sourceName.toList)⟩ ::
        ⟨true, .comment notice⟩ :: alphabet.lexemes .between true (body settings theme) := by
  have generated : ∀ c ∈ " Generated from ".toList ++ sourceName.toList, isTerminator c = false :=
    List.forall_mem_append.mpr ⟨isTerminator_eq_false_of_all (by decide), line⟩
  have noticed : ∀ c ∈ notice, isTerminator c = false := isTerminator_eq_false_of_all (by decide)
  rw [toList_text, lexemes_lineComment generated, lexemes_lineComment noticed]

theorem comments_text_iff (theme : Theme) :
    comments (alphabet.lexemes .between true (text settings theme sourceName).toList) =
        [" Generated from ".toList ++ sourceName.toList, notice] ↔
      ∀ c ∈ sourceName.toList, isTerminator c = false := by
  constructor
  · intro read c member
    rw [toList_text] at read
    have opened : ∀ cs, comments (alphabet.lexemes .between true ('/' :: '/' :: cs)) =
        cs.takeWhile (!isTerminator ·) ::
          comments (alphabet.lexemes .between true (cs.dropWhile (!isTerminator ·)).tail) :=
      fun cs => congrArg comments (lexemes_comment [] cs)
    rw [opened, List.cons.injEq] at read
    have among : c ∈ List.takeWhile (!isTerminator ·) _ :=
      read.1.symm ▸ List.mem_append_right _ member
    simpa using List.all_eq_true.mp List.all_takeWhile c among
  · intro line
    have body : comments (alphabet.lexemes .between true (body settings theme)) = [] := by
      rw [Preset.body, lexemes_lineFeed, lexemes_importLine lexemes_definePreset]
      rfl
    rw [lexemes_module line, comments, comments, body]

theorem code_text (line : ∀ c ∈ sourceName.toList, isTerminator c = false) (theme : Theme) :
    alphabet.code (text settings theme sourceName).toList =
      alphabet.code (body settings theme) := by
  rw [Alphabet.code, lexemes_module line]
  rfl

theorem imports?_body_iff (theme : Theme)
    (named : ∀ name ∈ Fields.keys (presets settings), alphabet.isBinding name.toList = true) :
    (∃ remaining, imports? (.between true) (alphabet.code (body settings theme)) =
        some ((prologue settings sourceName).imports, remaining) ∧
      constant? remaining = some (prologue settings sourceName).constant) ↔
    ∀ source ∈ settings.presetPackage :: Fields.values (presets settings),
      ∀ c ∈ source.toList, isPlain c = true := by
  have begun : alphabet.code (body settings theme) = alphabet.code (body settings theme).tail := rfl
  rw [begun, body, List.tail_cons, List.forall_mem_cons]
  simp only [prologue, imports?_definePresetLine_eq_some_iff,
    imports?_defaultLines_eq_some_iff named]
  constructor
  · rintro ⟨remaining, ⟨package, others, -⟩, -⟩
    exact ⟨package, others⟩
  · rintro ⟨package, others⟩
    obtain ⟨lexemes, read⟩ := exists_imports?_definition settings theme
    exact ⟨_, ⟨package, others, read⟩, rfl⟩

theorem declares_names_iff :
    alphabet.declares (prologue settings sourceName).names = true ↔
      (∀ name ∈ Fields.keys (presets settings), alphabet.isBinding name.toList = true) ∧
        ("definePreset" :: Fields.keys (presets settings) ++ ["Default"]).Nodup := by
  have names : (prologue settings sourceName).names =
      ("definePreset" :: Fields.keys (presets settings) ++ ["Default"]).map String.toList := by
    simp [prologue, Prologue.names, Import.names, defaultImport, Binding.ofDefault,
      List.flatMap_map, ← List.map_eq_flatMap, Fields.keys]
  have first : alphabet.isBinding "definePreset".toList = true :=
    isBinding_of_ascii (by decide) (by decide)
  have last : alphabet.isBinding "Default".toList = true :=
    isBinding_of_ascii (by decide) (by decide)
  have distinct (names : List String) : (names.map String.toList).Nodup ↔ names.Nodup := by
    simp only [List.Nodup, List.pairwise_map, ne_eq, String.toList_inj]
  rw [names, declares, Bool.and_eq_true, decide_eq_true_eq, distinct]
  refine and_congr_left fun _ => ?_
  simp only [List.all_map, List.all_append, List.all_cons, List.all_nil, Function.comp_apply, first,
    last, Bool.and_true, Bool.true_and, List.all_eq_true]

/-- A module is read as one that names its document and the notice in the comments in front, and
then imports what the settings name, each from its own module and in order, exactly if the settings
are tame.  Nothing in a module but the name in its first comment depends on the document. -/
theorem reads_as_configured_iff (alphabet : Alphabet) (settings : Settings) (theme : Theme)
    (sourceName : String) :
    (alphabet.prologue? (text settings theme sourceName).toList =
        some (prologue settings sourceName) ↔ Tame alphabet settings sourceName) ∧
    ∃ tail, ∀ sourceName, text settings theme sourceName =
      "// Generated from " ++ sourceName ++ "\n" ++
        "// Do not edit by hand: regenerate with \x60tokenpress convert\x60.\n" ++ tail := by
  constructor
  · rw [prologue?_eq_some_iff, declares_names_iff]
    constructor
    · rintro ⟨commented, read, names, distinct⟩
      have line := (comments_text_iff theme).mp commented
      rw [code_text line] at read
      exact ⟨line, (imports?_body_iff theme names).mp read, names, distinct⟩
    · rintro ⟨line, texts, names, distinct⟩
      refine ⟨(comments_text_iff theme).mpr line, ?_, names, distinct⟩
      rw [code_text line]
      exact (imports?_body_iff theme names).mpr texts
  · refine ⟨String.ofList (body settings theme), fun sourceName => ?_⟩
    have feed : "\n".toList = ['\n'] := by decide
    rw [← String.toList_inj, toList_text]
    simp only [String.toList_append, String.toList_ofList, generated_eq, feed, noticeLine_eq,
      List.append_assoc, List.cons_append, List.nil_append]

end Preset
end DesignTokens
