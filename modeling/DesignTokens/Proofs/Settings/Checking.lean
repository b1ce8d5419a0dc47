import DesignTokens.Settings.Basic

/-!
# What checking settings comes to

Checking adds the faults of one field after another, whatever was found before.  A field that is
given has a fault of its own name if it breaks its rule, and its value if it does not; so settings
that are accepted have the value that the rule gives.
-/

namespace DesignTokens
namespace Settings

variable {α β : Type}

/-! ## Checks -/

/-- A check comes to a value and adds faults to those found before. -/
def Check.Finds (work : Check α) (value : α) (faults : List (String × String)) : Prop :=
  ∀ problems, work problems = (value, problems ++ faults)

namespace Check.Finds

theorem pure (value : α) : Finds (Pure.pure value) value [] :=
  fun problems => by rw [List.append_nil]; rfl

theorem bind {work : Check α} {value : α} {faults : List (String × String)}
    (found : Finds work value faults) {next : α → Check β} {result : β}
    {others : List (String × String)} (rest : Finds (next value) result others) :
    Finds (work >>= next) result (faults ++ others) := by
  intro problems
  change next (work problems).1 (work problems).2 = _
  rw [found problems, rest, List.append_assoc]

end Check.Finds

/-! ## Fields -/

/-- The value of a field, or its default where the field is missing or breaks its rule. -/
def valueOf (entries : Fields Json) (field : String) (rule : Rule α) (default : α) : α :=
  match Fields.get? entries field with
  | none => default
  | some value => (rule value).toOption.getD default

/-- The fault of a field that is given and breaks its rule. -/
def faultsOf (entries : Fields Json) (field : String) (rule : Rule α) : List (String × String) :=
  match Fields.get? entries field with
  | none => []
  | some value =>
      match rule value with
      | .ok _ => []
      | .error broken => [(field, broken)]

theorem finds_check (entries : Fields Json) (field : String) (rule : Rule α) (default : α) :
    (check entries field rule default).Finds (valueOf entries field rule default)
      (faultsOf entries field rule) := by
  unfold check valueOf faultsOf
  cases Fields.get? entries field with
  | none => exact .pure default
  | some value =>
      dsimp only
      cases rule value with
      | ok value => exact .pure value
      | error broken => exact fun problems => rfl

theorem fst_of_mem_faultsOf {entries : Fields Json} {field : String} {rule : Rule α}
    {fault : String × String} (found : fault ∈ faultsOf entries field rule) : fault.1 = field := by
  unfold faultsOf at found
  cases given : Fields.get? entries field with
  | none => simp [given] at found
  | some value =>
      cases judged : rule value with
      | ok value => simp [given, judged] at found
      | error broken =>
          simp only [given, judged, List.mem_singleton] at found
          rw [found]

/-- A fault in a collection is called after the collection. -/
theorem exists_finds_checkMembers (field : String) (members : List (String × Json)) :
    ∃ texts faults, (checkMembers field members).Finds texts faults ∧
      ∀ fault ∈ faults, ∃ name, fault.1 = field ++ "." ++ name := by
  induction members with
  | nil => exact ⟨[], [], .pure [], by simp⟩
  | cons entry rest ih =>
      obtain ⟨name, member⟩ := entry
      obtain ⟨texts, faults, found, named⟩ := ih
      unfold checkMembers
      split
      · exact ⟨_, _, (Check.Finds.pure _).bind (found.bind (.pure _)), by simpa using named⟩
      · have added : (modify (· ++ [(field ++ "." ++ name, "string_type")]) : Check Unit).Finds ()
            [(field ++ "." ++ name, "string_type")] := fun problems => rfl
        refine ⟨_, _, added.bind ((Check.Finds.pure []).bind (found.bind (.pure _))), ?_⟩
        rw [List.append_nil, List.nil_append, List.singleton_append]
        exact List.forall_mem_cons.mpr ⟨⟨name, rfl⟩, named⟩

theorem exists_finds_checkCollection (entries : Fields Json) (field : String) :
    ∃ texts faults, (checkCollection entries field).Finds texts faults ∧
      ∀ fault ∈ faults, fault.1 = field ∨ ∃ name, fault.1 = field ++ "." ++ name := by
  unfold checkCollection
  split
  · exact ⟨_, _, .pure [], by simp⟩
  · obtain ⟨texts, faults, found, named⟩ := exists_finds_checkMembers field ‹_›
    exact ⟨texts, faults, found, fun fault member => .inr (named fault member)⟩
  · exact ⟨[], [(field, "dict_type")], fun problems => rfl, by simp⟩

/-! ## All fields -/

/-- The settings have the value of `token_format`, and no other field has a fault of that name. -/
theorem exists_finds_checkAll (entries : Fields Json) :
    ∃ settings faults, (checkAll entries).Finds settings faults ∧
      settings.tokenFormat = valueOf entries "token_format" Rule.tokenFormat "aura" ∧
      ∀ broken, ("token_format", broken) ∈ faults ↔
        ("token_format", broken) ∈ faultsOf entries "token_format" Rule.tokenFormat := by
  obtain ⟨texts, faults, found, named⟩ := exists_finds_checkCollection entries "component_imports"
  have others : ∀ {α : Type} {field : String} (rule : Rule α) (broken : String),
      field ≠ "token_format" → ("token_format", broken) ∉ faultsOf entries field rule :=
    fun rule broken different member => different (fst_of_mem_faultsOf member).symm
  have apart : ∀ broken, ("token_format", broken) ∉ faults := by
    intro broken member
    rcases named _ member with same | ⟨name, same⟩
    · exact absurd (show "token_format" = "component_imports" from same) (by decide)
    · have first := congrArg (fun name => name.toList.head?) same
      simp at first
  refine ⟨_, _, (finds_check _ _ _ _).bind <| (finds_check _ _ _ _).bind <|
    (finds_check _ _ _ _).bind <| (finds_check _ _ _ _).bind <| (finds_check _ _ _ _).bind <|
    (finds_check _ _ _ _).bind <| (finds_check _ _ _ _).bind <| (finds_check _ _ _ _).bind <|
    (finds_check _ _ _ _).bind <| (finds_check _ _ _ _).bind <| found.bind <|
    (finds_check _ _ _ _).bind <| .pure _, rfl, fun broken => ?_⟩
  simp [others, apart]

/-- Settings are accepted if nothing is found, and what is found is reported otherwise. -/
theorem ofEntries_of_finds {entries : Fields Json} {settings : Settings}
    {faults : List (String × String)} (found : (checkAll entries).Finds settings faults) :
    ofEntries entries =
      if faults.isEmpty then .ok settings else .error (.invalid faults) := by
  have ended : (checkAll entries).run [] = (settings, faults) := found []
  rw [ofEntries, ended]

variable {entries : Fields Json} {value : Json} {broken : String}

theorem mem_faultsOf_iff {field : String} {rule : Rule α}
    (given : Fields.get? entries field = some value) :
    (field, broken) ∈ faultsOf entries field rule ↔ rule value = .error broken := by
  rw [faultsOf, given]
  cases judged : rule value with
  | ok value => simp [judged]
  | error reason => simp [judged, eq_comm]

theorem tokenFormat_of_ofEntries {settings : Settings}
    (given : Fields.get? entries "token_format" = some value)
    (accepted : ofEntries entries = .ok settings) :
    Rule.tokenFormat value = .ok settings.tokenFormat := by
  obtain ⟨same, faults, found, valued, listed⟩ := exists_finds_checkAll entries
  rw [ofEntries_of_finds found] at accepted
  cases faults with
  | cons fault faults => exact absurd accepted nofun
  | nil =>
      rw [Except.ok.inj accepted] at valued
      rw [valued, valueOf, given]
      dsimp only
      cases judged : Rule.tokenFormat value with
      | ok stored => rfl
      | error broken =>
          exact absurd ((listed broken).mpr ((mem_faultsOf_iff given).mpr judged)) nofun

/-- A value for `token_format` is reported if it breaks the rule, and only then. -/
theorem tokenFormat_reported_iff (given : Fields.get? entries "token_format" = some value) :
    (∃ faults, ofEntries entries = .error (.invalid faults) ∧ ("token_format", broken) ∈ faults) ↔
      Rule.tokenFormat value = .error broken := by
  obtain ⟨settings, faults, found, -, listed⟩ := exists_finds_checkAll entries
  rw [ofEntries_of_finds found, ← mem_faultsOf_iff given, ← listed]
  constructor
  · rintro ⟨reported, refused, member⟩
    cases faults with
    | nil => exact absurd refused nofun
    | cons fault faults =>
        rw [SettingsFault.invalid.inj (Except.error.inj refused)]
        exact member
  · intro member
    refine ⟨faults, if_neg ?_, member⟩
    simpa using List.ne_nil_of_mem member

end Settings
end DesignTokens
