import DesignTokens.Proofs.Json.Describe
import DesignTokens.Proofs.Literal.Pruning
import DesignTokens.Proofs.Script.Reader
import Mathlib.Data.List.TakeWhile

/-!
# Reading what is written

What is written keeps only the parts of a tree that have a value.  The object literal of a tree is
read back, in every dialect, to what the dialect makes of the names and scalars in these parts.
-/

namespace DesignTokens

theorem Floating.chars_ne_nil (value : Floating) : value.chars ≠ [] := by
  cases value with
  | finite negative magnitude =>
      intro empty
      have denoted := Script.number?_finite negative magnitude
      rw [empty] at denoted
      cases denoted
  | infinite negative => cases negative <;> exact nofun
  | nan => exact nofun

namespace Literal

/-! ## Names -/

/-- Whether a name is written bare. -/
def isBare (name : String) : Bool :=
  let stem := beforeNewline name.toList
  isIdentifier stem || isInteger stem

theorem key_eq (name : String) :
    key name = if isBare name then name.toList else string name.toList := rfl

/-- Behind the stem of a name there is at most a line feed. -/
theorem exists_beforeNewline (cs : List Char) :
    ∃ tail, cs = beforeNewline cs ++ tail ∧ ∀ c ∈ tail, c = '\n' := by
  by_cases feed : cs.getLast? = some '\n'
  · refine ⟨['\n'], ?_, List.forall_mem_singleton.mpr rfl⟩
    rw [beforeNewline, if_pos feed]
    exact (List.dropLast_append_getLast? _ feed).symm
  · refine ⟨[], ?_, nofun⟩
    rw [beforeNewline, if_neg feed, List.append_nil]

theorem isNamePart_of_isIdentifier {cs : List Char} (identifier : isIdentifier cs = true) :
    ∀ c ∈ cs, isNamePart c = true := by
  cases cs with
  | nil => exact nofun
  | cons c rest =>
      obtain ⟨first, others⟩ := Bool.and_eq_true_iff.mp identifier
      refine List.forall_mem_cons.mpr ⟨?_, List.all_eq_true.mp others⟩
      rw [isNamePart, first, Bool.true_or]

theorem isNamePart_of_isInteger {cs : List Char} (integer : isInteger cs = true) :
    ∀ c ∈ cs, isNamePart c = true := by
  have digit : ∀ {c : Char}, c.isDigit = true → isNamePart c = true := by
    intro c digit
    rw [isNamePart, digit, Bool.or_true]
  rw [isInteger.eq_def] at integer
  split at integer
  · exact absurd integer Bool.false_ne_true
  · exact List.all_eq_true.mp rfl
  · simp only [Bool.and_eq_true, List.all_eq_true] at integer
    obtain ⟨⟨first, -⟩, others⟩ := integer
    exact List.forall_mem_cons.mpr ⟨digit first, fun c member => digit (others c member)⟩

/-- The stem of a bare name is a row of characters that may stand in an identifier. -/
theorem stem_of_isBare {name : String} (bare : isBare name = true) :
    beforeNewline name.toList ≠ [] ∧
      ∀ c ∈ beforeNewline name.toList, isNamePart c = true := by
  rcases Bool.or_eq_true_iff.mp bare with identifier | integer
  · refine ⟨?_, isNamePart_of_isIdentifier identifier⟩
    intro empty
    rw [empty] at identifier
    cases identifier
  · refine ⟨?_, isNamePart_of_isInteger integer⟩
    intro empty
    rw [empty] at integer
    cases integer

/-! ## Words -/

theorem isWordPart_of_isNamePart {c : Char} (part : isNamePart c = true) :
    Script.isWordPart c = true := by
  rw [Script.isWordPart, part, Bool.true_or]

theorem isWordPart_of_isNumberChar {c : Char} (number : isNumberChar c = true) :
    Script.isWordPart c = true := by
  rcases Bool.or_eq_true_iff.mp number with digit | mark
  · rw [Script.isWordPart, isNamePart, digit, Bool.or_true, Bool.true_or]
  · have listed : ∀ c ∈ ['+', '-', '.', 'e', 'i', 'n', 'f', 'a'], Script.isWordPart c = true :=
      List.all_eq_true.mp rfl
    exact listed c (List.contains_iff_mem.mp mark)

/-- A scalar that is no text is written as a word. -/
theorem isWordPart_scalar {leaf : Scalar} (textless : ∀ text, leaf ≠ .str text) :
    ∀ c ∈ scalar leaf, Script.isWordPart c = true := by
  cases leaf with
  | bool value => cases value <;> exact List.all_eq_true.mp rfl
  | int value =>
      exact fun c member => isWordPart_of_isNumberChar (isNumberChar_intChars value c member)
  | real value =>
      exact fun c member => isWordPart_of_isNumberChar (value.isNumberChar_chars c member)
  | str text => exact absurd rfl (textless text)

theorem scalar_ne_nil (leaf : Scalar) : scalar leaf ≠ [] := by
  cases leaf with
  | bool value => cases value <;> exact nofun
  | int value =>
      intro empty
      have denoted := Script.number?_intChars value
      rw [scalar] at empty
      rw [empty] at denoted
      cases denoted
  | real value => exact value.chars_ne_nil
  | str text => exact nofun

end Literal

namespace Script
namespace Dialect

variable (dialect : Dialect)

/-- The part of a bare name that is read as one word. -/
def stem (name : String) : List Char := name.toList.takeWhile dialect.isNamePart

/-- The name that the writing of a name is read as. -/
def name? (name : String) : Option String :=
  if Literal.isBare name then
    if dialect.isName (dialect.stem name) then some (.ofList (dialect.stem name)) else none
  else if name.toList.all dialect.isText then some name else none

/-- The scalar that the writing of a scalar is read as. -/
def scalar? : Scalar → Option Scalar
  | .str text => if text.toList.all dialect.isText then some (.str text) else none
  | leaf => dialect.word? (Literal.scalar leaf)

mutual

/-- The value that the writing of a value is read as. -/
def value? : Json → Option Json
  | .null => none
  | .scalar leaf => (dialect.scalar? leaf).map .scalar
  | .list items => (items? items).map .list
  | .object entries => (entries? entries).map .object

/-- The items that the writing of a list is read as. -/
def items? : List Json → Option (List Json)
  | [] => some []
  | .null :: rest => items? rest
  | item :: rest => (value? item).bind fun item => (items? rest).map (item :: ·)

/-- The entries that the writing of an object is read as. -/
def entries? : List (String × Json) → Option (List (String × Json))
  | [] => some []
  | (_, .null) :: rest => entries? rest
  | (name, entry) :: rest =>
      (dialect.name? name).bind fun name =>
        (value? entry).bind fun entry => (entries? rest).map ((name, entry) :: ·)

end

variable {dialect : Dialect} {stack : List Frame} {rest : List Char}

/-! ## Names and scalars -/

/-- A text in quotes is read if all its characters are. -/
theorem run_string (role : Role) (cs : List Char) :
    dialect.run (.start role) stack (Literal.string cs ++ rest) =
      if cs.all dialect.isText then dialect.run (role.afterText cs) stack rest else none := by
  have opened : ∀ rest, dialect.run (.start role) stack ('\'' :: rest) =
      dialect.run (.text role []) stack rest := by
    cases role <;> exact fun _ => rfl
  rw [Literal.string, List.cons_append, List.cons_append, List.append_assoc, List.singleton_append,
    opened, run_text, List.nil_append]

/-- The word of a bare name is the stem of the name and perhaps a line feed; what follows the word
is blank. -/
theorem stem_append_of_isBare (dialect : Dialect) {name : String}
    (bare : Literal.isBare name = true) :
    ∃ blanks, name.toList = dialect.stem name ++ blanks ∧ (∀ c ∈ blanks, isSpace c = true) ∧
      (∀ c ∈ blanks.head?, dialect.isNamePart c = false) ∧ dialect.stem name ≠ [] ∧
        ∀ c ∈ (dialect.stem name).head?, isWordPart c = true := by
  obtain ⟨nonempty, parts⟩ := Literal.stem_of_isBare bare
  obtain ⟨tail, split, feeds⟩ := Literal.exists_beforeNewline name.toList
  have inside : ∀ c ∈ Literal.beforeNewline name.toList, dialect.isNamePart c = true :=
    fun c member => dialect.isNamePart_of_literal c (parts c member)
  have taken : dialect.stem name =
      Literal.beforeNewline name.toList ++ tail.takeWhile dialect.isNamePart := by
    rw [stem, ← List.takeWhile_append_of_pos inside, ← split]
  refine ⟨tail.dropWhile dialect.isNamePart, ?_, ?_, ?_, ?_, ?_⟩
  · rw [taken, List.append_assoc, List.takeWhile_append_dropWhile, ← split]
  · intro c member
    rw [feeds c ((List.dropWhile_sublist _).mem member)]
    rfl
  · intro c first
    have stops := List.head?_dropWhile_not dialect.isNamePart tail
    rw [first] at stops
    exact stops
  · rw [taken]
    exact List.append_ne_nil_of_left_ne_nil nonempty _
  · obtain ⟨c, others, stem⟩ := List.exists_cons_of_ne_nil nonempty
    rw [taken, stem]
    rintro _ ⟨⟩
    exact Literal.isWordPart_of_isNamePart (parts c (stem ▸ List.mem_cons_self))

theorem run_bare (entries : List (String × Json)) {name : String}
    (bare : Literal.isBare name = true) :
    dialect.run (.start (.name entries)) stack (name.toList ++ ':' :: rest) =
      if dialect.isName (dialect.stem name) then
        dialect.run (.colon entries (.ofList (dialect.stem name))) stack (':' :: rest)
      else none := by
  -- the word ends at the colon, or at the line feed that some dialects leave behind it
  obtain ⟨blanks, whole, blank, stops, nonempty, first⟩ := dialect.stem_append_of_isBare bare
  obtain ⟨c, more, follow, ends⟩ : ∃ c more, blanks ++ ':' :: rest = c :: more ∧
      dialect.isNamePart c = false := by
    cases blanks with
    | nil => exact ⟨':', rest, rfl, dialect.isNamePart_colon⟩
    | cons c blanks => exact ⟨c, blanks ++ ':' :: rest, rfl, stops c rfl⟩
  have parts : ∀ c ∈ dialect.stem name, dialect.isPart (.name entries) c = true :=
    fun c member => List.mem_takeWhile_imp member
  have isOpen : ∀ place, dialect.afterWord? (.name entries) (dialect.stem name) = some place →
      IsOpen place stack := by
    intro place complete
    obtain ⟨-, same⟩ := Option.ite_none_right_eq_some.mp complete
    exact Option.some.inj same ▸ isOpen_colon entries _ stack
  rw [whole, List.append_assoc, follow,
    run_start_whole_word (.name entries) nonempty first parts ends isOpen, ← follow, afterWord?]
  split
  · rw [Option.bind_some, run_blanks rfl (isOpen_colon entries _ stack) blank]
  · rfl

theorem run_key (entries : List (String × Json)) (name : String) :
    dialect.run (.start (.name entries)) stack (Literal.key name ++ ':' :: rest) =
      (dialect.name? name).bind fun name =>
        dialect.run (.start .value) (.object entries name :: stack) rest := by
  have colon : ∀ name : String,
      dialect.run (.colon entries name) stack (':' :: rest) =
        dialect.run (.start .value) (.object entries name :: stack) rest := fun _ => rfl
  rw [Literal.key_eq, name?]
  by_cases bare : Literal.isBare name = true
  · rw [if_pos bare, if_pos bare, run_bare entries bare]
    split
    · rw [Option.bind_some, colon]
    · rfl
  · rw [if_neg bare, if_neg bare, run_string]
    split
    · rw [Role.afterText, String.ofList_toList, Option.bind_some, colon]
    · rfl

theorem run_scalar (frame : Frame) (leaf : Scalar) {c : Char} (ends : isWordPart c = false) :
    dialect.run (.start .value) (frame :: stack) (Literal.scalar leaf ++ c :: rest) =
      (dialect.scalar? leaf).bind fun leaf =>
        dialect.run (.after (.scalar leaf)) (frame :: stack) (c :: rest) := by
  by_cases text : ∃ text, leaf = .str text
  · obtain ⟨text, rfl⟩ := text
    rw [Literal.scalar, run_string, scalar?]
    split
    · rw [Role.afterText, String.ofList_toList]
      rfl
    · rfl
  · have textless := not_exists.mp text
    have parts := Literal.isWordPart_scalar textless
    have word : dialect.scalar? leaf = dialect.word? (Literal.scalar leaf) := by
      rw [scalar?]
      exact textless
    rw [run_start_whole_word .value (Literal.scalar_ne_nil leaf)
      (fun c first => parts c (List.mem_of_head? first)) parts ends
      fun place _ => isOpen_cons place frame stack, word, afterWord?, Option.bind_map]
    rfl

/-! ## Rows of parts -/

/-- The runs of a machine inside a list or an object, by the parts that have been read. -/
structure Row (α : Type) where
  /-- The next part has not begun. -/
  opened : List α → List Char → Option (Json × List Char)
  /-- The next part is complete. -/
  filled : List α → α → List Char → Option (Json × List Char)
  /-- A comma and a blank stand between two parts. -/
  comma : ∀ before part blank rest, isSpace blank = true →
    filled before part (',' :: blank :: rest) = opened (before ++ [part]) rest

/-- Parts that are read one by one, whatever stands behind them, are read as a row, up to a
character that closes it. -/
theorem Row.opened_separated {α β : Type} (row : Row α) {text : β → List Char}
    {part? : β → Option α} (blank : Char) (isBlank : isSpace blank = true) {c : Char}
    (closed : List α → Option (Json × List Char)) (ends : isWordPart c = false)
    (closes : ∀ before, row.opened before (c :: rest) = closed before)
    (closesFilled : ∀ before part, row.filled before part (c :: rest) = closed (before ++ [part]))
    {elements : List β}
    (reads : ∀ element ∈ elements, ∀ before c rest, isWordPart c = false →
      row.opened before (text element ++ c :: rest) =
        (part? element).bind fun part => row.filled before part (c :: rest)) (before : List α) :
    row.opened before (Literal.separated [',', blank] (elements.map text) ++ c :: rest) =
      (elements.mapM part?).bind fun parts => closed (before ++ parts) := by
  -- each part joins those before it, so the induction is for every row of these
  induction elements generalizing before with
  | nil =>
      have nothing : Literal.separated [',', blank] (([] : List β).map text) = [] := rfl
      rw [nothing, List.nil_append, closes]
      simp
  | cons element elements ih =>
      obtain ⟨here, others⟩ := List.forall_mem_cons.mp reads
      cases elements with
      | nil =>
          have single : Literal.separated [',', blank] ([element].map text) = text element :=
            List.intercalate_singleton
          rw [single, here before c rest ends]
          cases read : part? element <;> simp [read, closesFilled]
      | cons next elements =>
          have first : Literal.separated [',', blank] ((element :: next :: elements).map text) =
              text element ++ [',', blank] ++
                Literal.separated [',', blank] ((next :: elements).map text) :=
            List.intercalate_cons_cons
          rw [first, List.append_assoc, List.append_assoc, List.cons_append,
            here before ',' _ (by decide), List.mapM_cons]
          cases part? element with
          | none => rfl
          | some part =>
              rw [Option.bind_some, List.singleton_append, row.comma _ _ _ _ isBlank, ih others]
              cases (next :: elements).mapM part? <;> simp

/-- The items of an open list. -/
def listRow (dialect : Dialect) (stack : List Frame) : Row Json where
  opened before := dialect.run (.start .value) (.list before :: stack)
  filled before item := dialect.run (.after item) (.list before :: stack)
  comma before item _ _ isBlank :=
    run_blank rfl (isOpen_start .value (.list (before ++ [item]) :: stack)) isBlank

/-- The entries of an open object. -/
def objectRow (dialect : Dialect) (stack : List Frame) : Row (String × Json) where
  opened before := dialect.run (.start (.name before)) stack
  filled before entry := dialect.run (.after entry.2) (.object before entry.1 :: stack)
  comma before entry _ _ isBlank :=
    run_blank rfl (isOpen_start (.name (before ++ [entry])) stack) isBlank

theorem items?_cons {item : Json} (present : item.isPresent = true) (items : List Json) :
    dialect.items? (item :: items) =
      (dialect.value? item).bind fun item => (dialect.items? items).map (item :: ·) := by
  cases item with
  | null => cases present
  | _ => rfl

theorem items?_eq (items : List Json) :
    dialect.items? items = (items.filter Json.isPresent).mapM dialect.value? := by
  induction items with
  | nil => rfl
  | cons item items ih =>
      rcases item.eq_null_or_isPresent with rfl | present
      · exact ih
      · rw [items?_cons present, List.filter_cons_of_pos present, List.mapM_cons, ih]
        simp only [Option.map_eq_bind]
        rfl

/-- The entry that the line of an entry is read as. -/
def member? (dialect : Dialect) (entry : String × Json) : Option (String × Json) :=
  (dialect.name? entry.1).bind fun name => (dialect.value? entry.2).map (name, ·)

theorem entries?_cons {entry : String × Json} (present : entry.2.isPresent = true)
    (entries : List (String × Json)) :
    dialect.entries? (entry :: entries) =
      (dialect.member? entry).bind fun entry => (dialect.entries? entries).map (entry :: ·) := by
  obtain ⟨name, entry⟩ := entry
  cases entry with
  | null => cases present
  | _ =>
      rw [member?, Option.bind_assoc]
      simp only [Option.bind_map]
      rfl

theorem entries?_eq (entries : List (String × Json)) :
    dialect.entries? entries =
      (entries.filter fun entry => entry.2.isPresent).mapM dialect.member? := by
  induction entries with
  | nil => rfl
  | cons entry entries ih =>
      obtain ⟨name, entry⟩ := entry
      rcases entry.eq_null_or_isPresent with rfl | present
      · exact ih
      · rw [entries?_cons present, ih]
        simp only [present, List.filter_cons_of_pos, List.mapM_cons, Option.map_eq_bind]
        rfl

/-! ## Values -/

/-- Whether a value that is part of something is read back from its writing, whatever stands behind
it. -/
def Reads (dialect : Dialect) (value : Json) : Prop :=
  ∀ indent frame stack c rest, isWordPart c = false →
    dialect.run (.start .value) (frame :: stack) (Literal.value indent value ++ c :: rest) =
      (dialect.value? value).bind fun value =>
        dialect.run (.after value) (frame :: stack) (c :: rest)

theorem run_list {items : List Json}
    (reads : ∀ item ∈ items, item.isPresent = true → dialect.Reads item) (indent : Int)
    (stack : List Frame) (rest : List Char) :
    dialect.run (.start .value) stack (Literal.value indent (.list items) ++ rest) =
      (dialect.items? items).bind fun items => dialect.run (.after (.list items)) stack rest := by
  have each : ∀ item ∈ items.filter Json.isPresent, dialect.Reads item := by
    intro item member
    obtain ⟨listed, present⟩ := List.mem_filter.mp member
    exact reads item listed present
  have opened : ∀ rest, dialect.run (.start .value) stack ('[' :: rest) =
      (dialect.listRow stack).opened [] rest := fun _ => rfl
  rw [Literal.value, List.cons_append, List.cons_append, List.append_assoc, List.singleton_append,
    opened, Literal.itemTexts_eq, items?_eq]
  exact (dialect.listRow stack).opened_separated ' ' rfl
    (fun items => dialect.run (.after (.list items)) stack rest) rfl (fun _ => rfl) (fun _ _ => rfl)
    (fun item member before c rest => each item member indent (.list before) stack c rest) []

theorem isSpace_spaces (indent : Int) : ∀ c ∈ Literal.spaces indent, isSpace c = true :=
  fun _ member => List.eq_of_mem_replicate member ▸ rfl

theorem run_entryLine {entry : String × Json} (reads : dialect.Reads entry.2) (indent : Int)
    (stack : List Frame) (before : List (String × Json)) (c : Char) (rest : List Char)
    (ends : isWordPart c = false) :
    (dialect.objectRow stack).opened before (Literal.entryLine indent entry ++ c :: rest) =
      (dialect.member? entry).bind fun entry =>
        (dialect.objectRow stack).filled before entry (c :: rest) := by
  have parts : Literal.entryLine indent entry ++ c :: rest =
      Literal.spaces indent ++ (Literal.key entry.1 ++
        ':' :: ' ' :: (Literal.value indent entry.2 ++ c :: rest)) := by
    simp [Literal.entryLine]
  have value : ∀ name,
      dialect.run (.start .value) (.object before name :: stack)
          (' ' :: (Literal.value indent entry.2 ++ c :: rest)) =
        (dialect.value? entry.2).bind fun value =>
          dialect.run (.after value) (.object before name :: stack) (c :: rest) := by
    intro name
    rw [run_blank rfl (isOpen_start _ _) rfl, reads indent _ stack c rest ends]
  calc (dialect.objectRow stack).opened before (Literal.entryLine indent entry ++ c :: rest)
      = dialect.run (.start (.name before)) stack (Literal.key entry.1 ++
          ':' :: ' ' :: (Literal.value indent entry.2 ++ c :: rest)) := by
        rw [parts]
        exact run_blanks rfl (isOpen_start _ stack) (isSpace_spaces indent)
    _ = (dialect.name? entry.1).bind fun name => (dialect.value? entry.2).bind fun value =>
          dialect.run (.after value) (.object before name :: stack) (c :: rest) := by
        rw [run_key]
        exact Option.bind_congr fun name _ => value name
    _ = (dialect.member? entry).bind fun entry =>
          (dialect.objectRow stack).filled before entry (c :: rest) := by
        rw [member?, Option.bind_assoc]
        simp only [Option.bind_map]
        rfl

/-- The end of a block closes an object. -/
theorem run_close {place : Place} {stack outer : List Frame} (between : place.isBetween = true)
    (isOpen : IsOpen place stack) {value : Json}
    (closes : ∀ rest, dialect.run place stack ('}' :: rest) = dialect.run (.after value) outer rest)
    (indent : Int) (rest : List Char) :
    dialect.run place stack ('\n' :: (Literal.spaces indent ++ '}' :: rest)) =
      dialect.run (.after value) outer rest := by
  rw [run_blank between isOpen rfl, run_blanks between isOpen (isSpace_spaces indent), closes]

theorem run_object {entries : List (String × Json)}
    (reads : ∀ entry ∈ entries, entry.2.isPresent = true → dialect.Reads entry.2) (indent : Int)
    (stack : List Frame) (rest : List Char) :
    dialect.run (.start .value) stack (Literal.object indent (.object entries) ++ rest) =
      (dialect.entries? entries).bind fun entries =>
        dialect.run (.after (.object entries)) stack rest := by
  have each : ∀ entry ∈ entries.filter (fun entry => entry.2.isPresent),
      dialect.Reads entry.2 := by
    intro entry member
    obtain ⟨listed, present⟩ := List.mem_filter.mp member
    exact reads entry listed present
  have opened : ∀ rest, dialect.run (.start .value) stack ('{' :: rest) =
      dialect.run (.start (.name [])) stack rest := fun _ => rfl
  rw [Literal.object, Literal.block, Literal.entryLines_eq, entries?_eq]
  generalize entries.filter (fun entry => entry.2.isPresent) = kept at each ⊢
  -- the closing brace stands on a line of its own, behind the last entry if there is one
  let closed (entries : List (String × Json)) := dialect.run (.after (.object entries)) stack rest
  have closes : ∀ before, (dialect.objectRow stack).opened before
      ('\n' :: (Literal.spaces indent ++ '}' :: rest)) = closed before :=
    fun before => run_close rfl (isOpen_start (.name before) stack) (fun _ => rfl) indent rest
  have closesFilled : ∀ before entry, (dialect.objectRow stack).filled before entry
      ('\n' :: (Literal.spaces indent ++ '}' :: rest)) = closed (before ++ [entry]) :=
    fun before entry => run_close rfl (isOpen_cons (.after entry.2) (.object before entry.1) stack)
      (fun _ => rfl) indent rest
  cases kept with
  | nil => exact opened ('}' :: rest)
  | cons first others =>
      have row := (dialect.objectRow stack).opened_separated '\n' rfl closed rfl closes closesFilled
        (fun entry member before c rest =>
          run_entryLine (each entry member) (indent + Literal.step) stack before c rest) []
      have feed : ∀ rest, dialect.run (.start (.name [])) stack ('\n' :: rest) =
          dialect.run (.start (.name [])) stack rest :=
        fun _ => run_blank rfl (isOpen_start (.name []) stack) rfl
      simp only [List.map_cons, List.isEmpty_cons, Bool.false_eq_true, if_false, List.append_assoc,
        List.cons_append, List.nil_append] at row ⊢
      rw [opened, feed]
      exact row

theorem reads_of_isPresent {value : Json} (present : value.isPresent = true) :
    dialect.Reads value := by
  induction value using Json.induction with
  | null => cases present
  | scalar leaf =>
      intro indent frame stack c rest ends
      rw [Literal.value, run_scalar frame leaf ends, value?, Option.bind_map]
      rfl
  | list items ih =>
      intro indent frame stack c rest ends
      rw [run_list (fun item member present => ih item member present), value?, Option.bind_map]
      rfl
  | object entries ih =>
      intro indent frame stack c rest ends
      rw [value?, Option.bind_map]
      exact run_object (fun entry member present => ih entry member present) indent _ _

/-- The written object is read from the front of a text, and the rest of the text is left. -/
theorem object?_object (dialect : Dialect) (entries : List (String × Json)) (indent : Int)
    (rest : List Char) :
    dialect.object? (Literal.object indent (.object entries) ++ rest) =
      (dialect.value? (.object entries)).map fun value => (value, rest) := by
  have begins : dialect.object? (Literal.object indent (.object entries) ++ rest) =
      dialect.run (.start .value) [] (Literal.object indent (.object entries) ++ rest) := by
    obtain ⟨tail, written⟩ := Literal.exists_object_eq_cons indent entries
    rw [written]
    rfl
  rw [begins, run_object (fun _ _ present => reads_of_isPresent present) indent [] rest, value?,
    Option.map_map, Option.map_eq_bind]
  exact Option.bind_congr fun entries _ => run_after (.object entries) rest

/-! ## Recovered trees -/

section Recovered

variable {name : String → Bool} {scalar : Scalar → Bool}

theorem items?_eq_some_pruneItems_iff {items : List Json}
    (each : ∀ item ∈ items, item.isPresent = true →
      (dialect.value? item = some item.prune ↔ item.passes name scalar = true)) :
    dialect.items? items = some (Json.pruneItems items) ↔
      Json.itemsPass name scalar items = true := by
  induction items with
  | nil => simp [items?, Json.pruneItems, Json.itemsPass]
  | cons item items ih =>
      obtain ⟨here, others⟩ := List.forall_mem_cons.mp each
      rw [Json.itemsPass, Bool.and_eq_true]
      rcases item.eq_null_or_isPresent with rfl | present
      · exact (ih others).trans (and_iff_right rfl).symm
      · rw [items?_cons present, Json.pruneItems_cons present, ← here present, ← ih others]
        simp [Option.bind_eq_some_iff]

theorem entries?_eq_some_pruneEntries_iff
    (names : ∀ key, dialect.name? key = some key ↔ name key = true)
    {entries : List (String × Json)}
    (each : ∀ entry ∈ entries, entry.2.isPresent = true →
      (dialect.value? entry.2 = some entry.2.prune ↔ entry.2.passes name scalar = true)) :
    dialect.entries? entries = some (Json.pruneEntries entries) ↔
      Json.entriesPass name scalar entries = true := by
  induction entries with
  | nil => simp [entries?, Json.pruneEntries, Json.entriesPass]
  | cons entry entries ih =>
      obtain ⟨key, entry⟩ := entry
      obtain ⟨here, others⟩ := List.forall_mem_cons.mp each
      rcases entry.eq_null_or_isPresent with rfl | present
      · exact ih others
      · rw [entries?_cons present, Json.pruneEntries_cons present, Json.entriesPass_cons present,
          Bool.and_eq_true, Bool.and_eq_true, ← names, ← here present, ← ih others]
        simp [member?, Option.bind_eq_some_iff]

/-- A tree is recovered from its writing exactly if all names and scalars in it are. -/
theorem value?_eq_some_prune_iff
    (names : ∀ key, dialect.name? key = some key ↔ name key = true)
    (scalars : ∀ leaf, dialect.scalar? leaf = some leaf ↔ scalar leaf = true) {value : Json}
    (present : value.isPresent = true) :
    dialect.value? value = some value.prune ↔ value.passes name scalar = true := by
  induction value using Json.induction with
  | null => cases present
  | scalar leaf =>
      rw [value?, Json.prune, Json.passes, ← scalars]
      simp
  | list items ih =>
      rw [value?, Json.prune, Json.passes, ← items?_eq_some_pruneItems_iff ih]
      simp
  | object entries ih =>
      rw [value?, Json.prune, Json.passes, ← entries?_eq_some_pruneEntries_iff names ih]
      simp

end Recovered

end Dialect
end Script
end DesignTokens
