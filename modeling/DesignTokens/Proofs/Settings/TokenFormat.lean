import DesignTokens.Proofs.Settings.Checking
import DesignTokens.Proofs.Text.Trim
import DesignTokens.Theme
import Mathlib.Tactic.TFAE

/-!
# Canonical formats

The first part of the section names is bare if it is not empty and has no blank and no slash at its
ends.  Settings take the blanks off first and then the slashes, each once, so that what they keep is
bare just if no blank of the text that they are given stands inside the slashes.  For such a text
the format is its core, taken again it stays as it is, and a text without a core is refused.
-/

namespace DesignTokens
namespace Settings

/-! ## The parts of a text -/

/-- Whether a character is a slash. -/
def isSlash (c : Char) : Bool := c = '/'

/-- Whether a character is blank or a slash. -/
def isMargin (c : Char) : Bool := Text.isBlank c || isSlash c

/-- A text without the blanks and slashes around it. -/
def core (text : String) : List Char := Text.trim isMargin text.toList

/-- What settings keep of a text: it without the blanks and then without the slashes around it. -/
def stem (text : String) : List Char := Text.trim isSlash (Text.trim Text.isBlank text.toList)

/-- Slashes stand around the core of a text and blanks around these, but no blank stands inside the
slashes. -/
inductive Framed (text : String) : Prop
  /-- The parts of the text in order. -/
  | intro {blanks slashes slashes' blanks' : List Char}
      (blank : ∀ c ∈ blanks, Text.isBlank c = true) (slash : ∀ c ∈ slashes, isSlash c = true)
      (slash' : ∀ c ∈ slashes', isSlash c = true) (blank' : ∀ c ∈ blanks', Text.isBlank c = true)
      (parts : text.toList = blanks ++ (slashes ++ core text ++ slashes') ++ blanks')

/-- A format is not empty, and has no blank and no slash at its ends. -/
structure IsBare (format : String) : Prop where
  nonempty : format ≠ ""
  trimmed : Text.IsTrimmed isMargin format.toList

theorem isBlank_of_isSlash {c : Char} (slash : isSlash c = true) : Text.isBlank c = false := by
  rw [of_decide_eq_true slash]
  decide

theorem isMargin_of_isBlank {c : Char} (blank : Text.isBlank c = true) : isMargin c = true := by
  rw [isMargin, blank, Bool.true_or]

theorem isMargin_of_isSlash {c : Char} (slash : isSlash c = true) : isMargin c = true := by
  rw [isMargin, slash, Bool.or_true]

theorem isTrimmed_core (text : String) : Text.IsTrimmed isMargin (core text) :=
  Text.isTrimmed_trim isMargin text.toList

theorem isTrimmed_stem (text : String) : Text.IsTrimmed isSlash (stem text) :=
  Text.isTrimmed_trim isSlash _

/-- What settings keep stands among slashes, and these among blanks. -/
theorem exists_parts (text : String) :
    ∃ blanks slashes slashes' blanks', (∀ c ∈ blanks, Text.isBlank c = true) ∧
      (∀ c ∈ slashes, isSlash c = true) ∧ (∀ c ∈ slashes', isSlash c = true) ∧
      (∀ c ∈ blanks', Text.isBlank c = true) ∧
      text.toList = blanks ++ (slashes ++ stem text ++ slashes') ++ blanks' := by
  obtain ⟨blanks, blanks', blank, blank', outer⟩ :=
    Text.exists_surround_trim Text.isBlank text.toList
  obtain ⟨slashes, slashes', slash, slash', inner⟩ :=
    Text.exists_surround_trim isSlash (Text.trim Text.isBlank text.toList)
  refine ⟨blanks, slashes, slashes', blanks', blank, slash, slash', blank', ?_⟩
  rw [stem, ← inner, ← outer]

theorem framed_iff_stem_eq (text : String) : Framed text ↔ stem text = core text := by
  constructor
  · rintro ⟨blank, slash, slash', blank', parts⟩
    obtain ⟨blankTrimmed, slashTrimmed⟩ := Text.isTrimmed_or_iff.mp (isTrimmed_core text)
    have trimmed := blankTrimmed.surround (fun c member => isBlank_of_isSlash (slash c member))
      fun c member => isBlank_of_isSlash (slash' c member)
    rw [stem, parts, Text.trim_surround trimmed blank blank',
      Text.trim_surround slashTrimmed slash slash']
  · intro same
    obtain ⟨blanks, slashes, slashes', blanks', blank, slash, slash', blank', parts⟩ :=
      exists_parts text
    exact .intro blank slash slash' blank' (same ▸ parts)

/-- What settings keep is the core if no blank is left at its ends. -/
theorem stem_eq_core_iff (text : String) :
    stem text = core text ↔ Text.IsTrimmed isMargin (stem text) := by
  rw [eq_comm, core, Text.trim_eq_iff]
  refine and_iff_left_of_imp fun _ => ?_
  obtain ⟨blanks, slashes, slashes', blanks', blank, slash, slash', blank', parts⟩ :=
    exists_parts text
  refine ⟨blanks ++ slashes, slashes' ++ blanks', ?_, ?_, by simpa using parts⟩
  · exact List.forall_mem_append.mpr ⟨fun c member => isMargin_of_isBlank (blank c member),
      fun c member => isMargin_of_isSlash (slash c member)⟩
  · exact List.forall_mem_append.mpr ⟨fun c member => isMargin_of_isSlash (slash' c member),
      fun c member => isMargin_of_isBlank (blank' c member)⟩

/-- A text of which settings keep everything has neither blanks nor slashes at its ends. -/
theorem stem_eq_self_iff (text : String) :
    stem text = text.toList ↔ Text.IsTrimmed isMargin text.toList := by
  constructor
  · intro same
    have shorter := Text.trim_sublist Text.isBlank text.toList
    have longer := Text.trim_sublist isSlash (Text.trim Text.isBlank text.toList)
    rw [← stem, same] at longer
    have kept := shorter.antisymm longer
    refine Text.isTrimmed_or_iff.mpr ⟨?_, ?_⟩
    · exact kept ▸ Text.isTrimmed_trim Text.isBlank text.toList
    · exact same ▸ isTrimmed_stem text
  · intro trimmed
    obtain ⟨blankTrimmed, slashTrimmed⟩ := Text.isTrimmed_or_iff.mp trimmed
    rw [stem, Text.trim_of_isTrimmed blankTrimmed, Text.trim_of_isTrimmed slashTrimmed]

/-! ## Formats -/

theorem canonicalFormat?_eq (text : String) :
    canonicalFormat? text = if stem text = [] then none else some (.ofList (stem text)) := by
  simp only [← List.isEmpty_iff]
  rfl

theorem canonicalFormat?_eq_none_iff (text : String) :
    canonicalFormat? text = none ↔ stem text = [] := by
  rw [canonicalFormat?_eq]
  split <;> simp_all

theorem canonicalFormat?_eq_some_iff (text format : String) :
    canonicalFormat? text = some format ↔ format ≠ "" ∧ stem text = format.toList := by
  rw [canonicalFormat?_eq]
  split
  · rename_i none
    refine iff_of_false nofun ?_
    rintro ⟨nonempty, same⟩
    exact nonempty (String.toList_eq_nil_iff.mp (same.symm.trans none))
  · rename_i some
    constructor
    · intro same
      obtain rfl := Option.some.inj same
      exact ⟨fun empty => some (String.ofList_eq_empty_iff.mp empty), String.toList_ofList.symm⟩
    · rintro ⟨-, same⟩
      rw [same, String.ofList_toList]

/-- Of a text without a core settings keep nothing just if no blank stands inside the slashes. -/
theorem stem_eq_nil_iff (text : String) : stem text = [] ↔ Framed text ∧ core text = [] := by
  rw [framed_iff_stem_eq]
  constructor
  · intro none
    have same : stem text = core text := by
      rw [stem_eq_core_iff, none]
      exact ⟨nofun, nofun⟩
    exact ⟨same, same ▸ none⟩
  · rintro ⟨same, none⟩
    rw [same, none]

theorem sectionKey_inj {settings other : Settings} {part : String} {parts : List String} :
    settings.sectionKey (part :: parts) = other.sectionKey (part :: parts) ↔
      settings.tokenFormat = other.tokenFormat := by
  rw [sectionKey, sectionKey, String.intercalate_cons_cons, String.intercalate_cons_cons,
    String.append_left_inj, String.append_left_inj]

/-- Two settings look for the same sections just if they have the same format. -/
theorem sectionKeys_eq_iff (settings other : Settings) :
    (∀ pass : ThemePass, settings.sectionKey pass.path = other.sectionKey pass.path) ↔
      settings.tokenFormat = other.tokenFormat := by
  constructor
  · intro same
    exact sectionKey_inj.mp (same .primitive)
  · rintro same (_ | _ | _ | _) <;> exact sectionKey_inj.mpr same

/-- What is known of a format that settings keep. -/
theorem tfae_of_canonicalFormat? {text format : String}
    (kept : canonicalFormat? text = some format) :
    [Framed text, IsBare format, canonicalFormat? format = some format,
      format.toList = core text].TFAE := by
  obtain ⟨nonempty, same⟩ := (canonicalFormat?_eq_some_iff text format).mp kept
  tfae_have 1 ↔ 4 := by rw [framed_iff_stem_eq, same]
  tfae_have 4 ↔ 2 := by
    rw [← same, stem_eq_core_iff, same]
    exact ⟨fun trimmed => ⟨nonempty, trimmed⟩, IsBare.trimmed⟩
  tfae_have 2 ↔ 3 := by
    rw [canonicalFormat?_eq_some_iff, stem_eq_self_iff]
    exact ⟨fun bare => ⟨nonempty, bare.trimmed⟩, fun kept => ⟨nonempty, kept.2⟩⟩
  tfae_finish

/-- Settings that are given a text for the format keep a format that is not empty and has no slash
at its ends.  It is bare, is the core of the text, and stays as it is if it is taken again, each
just if no blank of the text stands inside the slashes.  The text is refused just if it has no core
and no blank inside the slashes.  Such a text and another one with the same core select the same
sections just if the other has no blank inside the slashes either. -/
theorem tokenFormat_of_text {entries : Fields Json} {text : String}
    (given : Fields.get? entries "token_format" = some (.str text)) :
    (∀ settings, ofEntries entries = .ok settings →
      settings.tokenFormat ≠ "" ∧ Text.IsTrimmed isSlash settings.tokenFormat.toList ∧
      [Framed text, IsBare settings.tokenFormat,
        canonicalFormat? settings.tokenFormat = some settings.tokenFormat,
        settings.tokenFormat.toList = core text].TFAE) ∧
    ((∃ faults, ofEntries entries = .error (.invalid faults) ∧
        ("token_format", "value_error") ∈ faults) ↔ Framed text ∧ core text = []) ∧
    ∀ others other settings settings', Fields.get? others "token_format" = some (.str other) →
      ofEntries entries = .ok settings → ofEntries others = .ok settings' →
      Framed text → core other = core text →
      ((∀ pass : ThemePass, settings'.sectionKey pass.path = settings.sectionKey pass.path) ↔
        Framed other) := by
  have kept : ∀ {entries text settings}, Fields.get? entries "token_format" = some (.str text) →
      ofEntries entries = .ok settings → canonicalFormat? text = some settings.tokenFormat := by
    intro entries text settings given accepted
    have judged := tokenFormat_of_ofEntries given accepted
    rw [Rule.tokenFormat] at judged
    cases stored : canonicalFormat? text with
    | none => simp [stored] at judged
    | some format => simpa [stored] using judged
  refine ⟨?_, ?_, ?_⟩
  · intro settings accepted
    have stored := kept given accepted
    obtain ⟨nonempty, same⟩ := (canonicalFormat?_eq_some_iff _ _).mp stored
    exact ⟨nonempty, same ▸ isTrimmed_stem text, tfae_of_canonicalFormat? stored⟩
  · rw [tokenFormat_reported_iff given, ← stem_eq_nil_iff, ← canonicalFormat?_eq_none_iff,
      Rule.tokenFormat]
    cases canonicalFormat? text <;> simp
  · intro others other settings settings' given' accepted accepted' framed alike
    have stored := (tfae_of_canonicalFormat? (kept given accepted)).out 0 3
    have stored' := (tfae_of_canonicalFormat? (kept given' accepted')).out 0 3
    rw [sectionKeys_eq_iff, stored', alike, ← stored.mp framed, String.toList_inj]

/-- Entries that give a text for the format and nothing else. -/
def formatOnly (text : String) : Fields Json := [("token_format", .str text)]

/-- A blank outside the slashes is taken off with them, and one inside stays, so that two texts
around one core select different sections. -/
theorem tokenFormat_of_aura :
    ∃ settings other, ofEntries (formatOnly " aura/ ") = .ok settings ∧
      ofEntries (formatOnly "/ aura") = .ok other ∧ core "/ aura" = core " aura/ " ∧
      IsBare settings.tokenFormat ∧ ¬IsBare other.tokenFormat ∧
      ¬∀ pass : ThemePass, other.sectionKey pass.path = settings.sectionKey pass.path := by
  have accepted : ∃ settings, ofEntries (formatOnly " aura/ ") = .ok settings ∧
      settings.tokenFormat = "aura" := ⟨_, rfl, by decide⟩
  have accepted' : ∃ settings, ofEntries (formatOnly "/ aura") = .ok settings ∧
      settings.tokenFormat = " aura" := ⟨_, rfl, by decide⟩
  obtain ⟨settings, accepted, aura⟩ := accepted
  obtain ⟨other, accepted', spaced⟩ := accepted'
  have alike : core "/ aura" = core " aura/ " := by decide
  have given : Fields.get? (formatOnly " aura/ ") "token_format" = some (.str " aura/ ") := rfl
  have given' : Fields.get? (formatOnly "/ aura") "token_format" = some (.str "/ aura") := rfl
  have kept := (tokenFormat_of_text given).1 settings accepted
  have kept' := (tokenFormat_of_text given').1 other accepted'
  have framed : Framed " aura/ " := (kept.2.2.out 0 2).mpr (by rw [aura]; decide)
  have unframed : ¬Framed "/ aura" := mt (kept'.2.2.out 0 2).mp (by rw [spaced]; decide)
  refine ⟨settings, other, accepted, accepted', alike, (kept.2.2.out 0 1).mp framed,
    mt (kept'.2.2.out 0 1).mpr unframed, ?_⟩
  have selected := (tokenFormat_of_text given).2.2 (formatOnly "/ aura") "/ aura" settings other
    given' accepted accepted' framed alike
  exact mt selected.mp unframed

end Settings
end DesignTokens
